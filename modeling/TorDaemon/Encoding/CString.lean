import TorDaemon.Library.FixedBuffer
import TorDaemon.SharedRandom.Protocol

/-! Strings in quotes, as they are written (`escape.c`) and as they are read (`cstring.c`). A string
is held without its terminating NUL. A read or a write outside of a buffer, an assertion that fails
and a branch that is marked as unreachable are `none`. -/
namespace TorDaemon.Encoding.CString
open Library.NetworkOrder Library.FixedBuffer
open SharedRandom (ascii hexDecodeDigit)

section Escape

/-- `TOR_ISPRINT`, by `TOR_ISPRINT_TABLE`. -/
def isPrint (c : UInt8) : Bool := 32 ≤ c && c < 127

/-- The characters that are escaped by themselves behind a backslash. -/
def isQuoted (c : UInt8) : Bool := c = 92 || c = 34 || c = 39

/-- The letters for the other escapes. -/
def escapeLetter (c : UInt8) : Option UInt8 :=
  if c = 10 then some 110 else if c = 9 then some 116 else if c = 13 then some 114 else none

/-- What the first loop of `esc_for_log` adds for a character. -/
def escapedLen (c : UInt8) : ℕ :=
  if isQuoted c || (escapeLetter c).isSome then 2
  else if isPrint c && c < 127 then 1
  else 4

/-- `"\\%03o"` -/
def octal (c : UInt8) : Bytes := [92, 48 + c / 64, 48 + c / 8 % 8, 48 + c % 8]

/-- A round of the second loop of `esc_for_log`. `tor_snprintf` writes a NUL as well, which the next
write is put over. -/
def escapeChar (len : ℕ) (outp : Bytes) (c : UInt8) : Option Bytes :=
  if outp.length + 2 < len then
    if isQuoted c then putAll len outp [92, c]
    else match escapeLetter c with
      | some letter => putAll len outp [92, letter]
      | none =>
        if isPrint c && c < 127 then put len outp c
        else if outp.length + 4 < len then do
          let _ ← putAll len outp (octal c ++ [0])
          putAll len outp (octal c)
        else none
  else none

/-- The size of the allocated result of `esc_for_log`. -/
def escapedSize (s : Bytes) : ℕ := s.foldl (fun len c => len + escapedLen c) 3

/-- `esc_for_log`: all bytes that it has written. No object has more than `SSIZE_MAX` bytes, which
it asserts of the size. -/
def escForLog : Option Bytes → Option Bytes
  | none => some (ascii "(null)" ++ [0])
  | some s => do
    let len := escapedSize s
    let outp ← put len [] 34
    let outp ← s.foldlM (escapeChar len) outp
    if outp.length + 2 ≤ len then putAll len outp [34, 0] else none

end Escape

section Unescape

def isODigit (c : UInt8) : Bool := 48 ≤ c && c ≤ 55

/-- `TOR_ISXDIGIT`, by `TOR_ISXDIGIT_TABLE`. -/
def isXDigit (c : UInt8) : Bool := 48 ≤ c && c ≤ 57 || 65 ≤ c && c ≤ 70 || 97 ≤ c && c ≤ 102

/-- The character at a place behind a pointer. -/
def peek (cp : Bytes) (k : ℕ) : Option UInt8 := (cp ++ [0])[k]?

/-- An octal digit is skipped, if there is one. -/
def skipODigit : Bytes → Bytes
  | c :: cp => if isODigit c then cp else c :: cp
  | [] => []

theorem length_skipODigit_le (cp : Bytes) : (skipODigit cp).length ≤ cp.length := by
  cases cp with
  | nil => rfl
  | cons c cp =>
    rw [skipODigit]
    split
    · exact Nat.le_succ _
    · rfl

/-- The first loop of `unescape_string`: the pointer to the closing quote. The inner `none` is a
NULL. -/
def scanString : Bytes → Option (Option Bytes)
  | [] => some none
  | c :: cp =>
    if c = 0 ∨ c = 10 then some none
    else if c = 34 then some (some (c :: cp))
    else if c = 92 then do
      let c1 ← peek cp 0
      if c1 = 120 ∨ c1 = 88 then
        let c2 ← peek cp 1
        if isXDigit c2 then
          let c3 ← peek cp 2
          if isXDigit c3 then scanString (cp.drop 3) else return none
        else return none
      else if isODigit c1 then scanString (skipODigit (skipODigit (cp.drop 1)))
      else if c1 ∈ [110, 114, 116, 34, 92, 39] then scanString (cp.drop 1)
      else return none
    else scanString cp
termination_by cp => cp.length
decreasing_by
  · rw [List.length_drop, List.length_cons]
    omega
  · have hfirst := length_skipODigit_le (cp.drop 1)
    have hsecond := length_skipODigit_le (skipODigit (cp.drop 1))
    rw [List.length_drop] at hfirst
    rw [List.length_cons]
    omega
  · rw [List.length_drop, List.length_cons]
    omega
  · exact Nat.lt_succ_self _

/-- The number with one more octal digit, if there is one. -/
def octalDigit (n : ℕ) : Bytes → ℕ × Bytes
  | c :: cp => if isODigit c then (n * 8 + c.toNat - 48, cp) else (n, c :: cp)
  | [] => (n, [])

theorem octalDigit_snd (n : ℕ) (cp : Bytes) : (octalDigit n cp).2 = skipODigit cp := by
  cases cp with
  | nil => rfl
  | cons c cp =>
    rw [octalDigit, skipODigit]
    split <;> rfl

/-- The letters of the escapes for control characters. -/
def controlLetter (c : UInt8) : Option UInt8 :=
  if c = 110 then some 10 else if c = 114 then some 13 else if c = 116 then some 9 else none

/-- The second loop of `unescape_string`: what is written before the NUL, and the pointer behind the
closing quote. The inner `none` is a NULL. -/
def decodeString (size : ℕ) (out : Bytes) : Bytes → Option (Option (Bytes × Bytes))
  | [] => none
  | c :: cp =>
    if c = 34 then do
      let _ ← put size out 0
      return some (out, cp)
    else if c = 0 then none
    else if c = 92 then do
      let c1 ← peek cp 0
      match controlLetter c1 with
      | some control =>
        let out ← put size out control
        decodeString size out (cp.drop 1)
      | none =>
        if c1 = 120 ∨ c1 = 88 then
          let x1 ← hexDecodeDigit (← peek cp 1)
          let x2 ← hexDecodeDigit (← peek cp 2)
          let out ← put size out (x1 <<< 4 + x2)
          decodeString size out (cp.drop 3)
        else if isODigit c1 then
          let first := octalDigit (c1.toNat - 48) (cp.drop 1)
          let second := octalDigit first.1 first.2
          if 255 < second.1 then return none
          else
            let out ← put size out (UInt8.ofNat second.1)
            decodeString size out second.2
        else if c1 ∈ [39, 34, 92, 63] then
          let out ← put size out c1
          decodeString size out (cp.drop 1)
        else none
    else do
      let out ← put size out c
      decodeString size out cp
termination_by cp => cp.length
decreasing_by
  · rw [List.length_drop, List.length_cons]
    omega
  · rw [List.length_drop, List.length_cons]
    omega
  · have hfirst := length_skipODigit_le (cp.drop 1)
    have hsecond := length_skipODigit_le (skipODigit (cp.drop 1))
    rw [List.length_drop] at hfirst
    rw [octalDigit_snd, octalDigit_snd, List.length_cons]
    omega
  · rw [List.length_drop, List.length_cons]
    omega
  · exact Nat.lt_succ_self _

/-- `unescape_string`: the result without its NUL, its length and the pointer that is returned. The
inner `none` is a NULL. -/
def unescapeString (s : Bytes) : Option (Option (Bytes × ℕ × Bytes)) :=
  match s with
  | [] => some none
  | c :: cp =>
    if c = 34 then do
      match ← scanString cp with
      | none => return none
      | some quote =>
        match ← decodeString (s.length - quote.length + 1) [] cp with
        | none => return none
        | some (out, rest) => return some (out, out.length, rest)
    else some none

end Unescape

section Steps

/-- One character of a string in quotes, by its number, and what is behind it. An octal escape may
be of a number that is no character. -/
inductive Step : Bytes → ℕ → Bytes → Prop
  | char {c : UInt8} {cp : Bytes} (hzero : c ≠ 0) (hline : c ≠ 10) (hquote : c ≠ 34)
      (hslash : c ≠ 92) : Step (c :: cp) c.toNat cp
  | hex {l h1 h2 x1 x2 : UInt8} {cp : Bytes} (hl : l = 120 ∨ l = 88)
      (hx1 : hexDecodeDigit h1 = some x1) (hx2 : hexDecodeDigit h2 = some x2) :
      Step (92 :: l :: h1 :: h2 :: cp) (x1 <<< 4 + x2).toNat cp
  | octal {l : UInt8} {cp : Bytes} (hl : isODigit l = true) :
      Step (92 :: l :: cp) (octalDigit (octalDigit (l.toNat - 48) cp).1 (skipODigit cp)).1
        (skipODigit (skipODigit cp))
  | control {l c : UInt8} {cp : Bytes} (hl : controlLetter l = some c) :
      Step (92 :: l :: cp) c.toNat cp
  | self {l : UInt8} {cp : Bytes} (hl : isQuoted l = true) : Step (92 :: l :: cp) l.toNat cp

variable {cp cp' quote rest out : Bytes} {v size : ℕ} {vs : List ℕ} {c l : UInt8}

theorem Step.length_lt (h : Step cp v cp') : cp'.length < cp.length := by
  cases h with
  | @octal l cp hl =>
    have hfirst := length_skipODigit_le cp
    have hsecond := length_skipODigit_le (skipODigit cp)
    rw [List.length_cons, List.length_cons]
    omega
  | _ =>
    simp only [List.length_cons]
    omega

theorem skipODigit_suffix (cp : Bytes) : skipODigit cp <:+ cp := by
  cases cp with
  | nil => exact List.suffix_refl _
  | cons c cp =>
    rw [skipODigit]
    split
    · exact List.suffix_cons c cp
    · exact List.suffix_refl _

theorem Step.suffix (h : Step cp v cp') : cp' <:+ cp := by
  cases h with
  | char => exact List.suffix_cons _ _
  | hex => exact ⟨[_, _, _, _], rfl⟩
  | octal =>
    exact ((skipODigit_suffix _).trans (skipODigit_suffix _)).trans ⟨[_, _], rfl⟩
  | control => exact ⟨[_, _], rfl⟩
  | self => exact ⟨[_, _], rfl⟩

theorem isXDigit_iff (c : UInt8) : isXDigit c = (hexDecodeDigit c).isSome := by
  revert c
  decide +kernel

theorem isODigit_not_letter (h : isODigit l = true) :
    l ≠ 120 ∧ l ≠ 88 ∧ controlLetter l = none ∧ l.toNat - 48 ≤ 7 := by
  revert l
  decide +kernel

theorem controlLetter_not_digit (h : controlLetter l = some c) :
    l ≠ 120 ∧ l ≠ 88 ∧ isODigit l = false ∧ l ∈ ([110, 114, 116, 34, 92, 39] : Bytes) := by
  have hall : ∀ l, (controlLetter l).isSome = true → l ≠ 120 ∧ l ≠ 88 ∧ isODigit l = false ∧
      l ∈ ([110, 114, 116, 34, 92, 39] : Bytes) := by decide +kernel
  exact hall l (by rw [h]; rfl)

theorem isQuoted_not_letter (h : isQuoted l = true) :
    l ≠ 120 ∧ l ≠ 88 ∧ isODigit l = false ∧ controlLetter l = none ∧
      l ∈ ([110, 114, 116, 34, 92, 39] : Bytes) ∧ l ∈ ([39, 34, 92, 63] : Bytes) := by
  revert l
  decide +kernel

theorem scanString_step (h : Step cp v cp') : scanString cp = scanString cp' := by
  cases h with
  | char hzero hline hquote hslash =>
    rw [scanString]
    simp [hzero, hline, hquote, hslash]
  | hex hl hx1 hx2 =>
    rw [scanString]
    simp [peek, hl, isXDigit_iff, hx1, hx2]
  | octal hl =>
    obtain ⟨hx, hX, -⟩ := isODigit_not_letter hl
    rw [scanString]
    simp [peek, hl, hx, hX]
  | control hl =>
    obtain ⟨hx, hX, hdigit, hmem⟩ := controlLetter_not_digit hl
    rw [scanString]
    simp only [List.mem_cons, List.not_mem_nil, or_false] at hmem
    simp [peek, hx, hX, hdigit, hmem]
  | self hl =>
    obtain ⟨hx, hX, hdigit, -, hmem, -⟩ := isQuoted_not_letter hl
    rw [scanString]
    simp only [List.mem_cons, List.not_mem_nil, or_false] at hmem
    simp [peek, hx, hX, hdigit, hmem]

theorem decodeString_step (h : Step cp v cp') (hroom : out.length < size) :
    decodeString size out cp =
      if 255 < v then some none else decodeString size (out ++ [UInt8.ofNat v]) cp' := by
  have hbyte (b : UInt8) : ¬255 < b.toNat := not_lt.mpr (Nat.le_of_lt_succ b.toNat_lt)
  cases h with
  | char hzero hline hquote hslash =>
    rw [decodeString]
    simp [hzero, hquote, hslash, hbyte, put_eq hroom]
  | @hex l _ _ x1 x2 _ hl hx1 hx2 =>
    have hcontrol : controlLetter l = none := by
      rcases hl with rfl | rfl <;> rfl
    rw [decodeString, if_neg (hbyte _)]
    simp [peek, hl, hcontrol, hx1, hx2, put_eq hroom, -UInt8.toNat_add]
  | octal hl =>
    obtain ⟨hx, hX, hcontrol, -⟩ := isODigit_not_letter hl
    rw [decodeString]
    simp [peek, hl, hx, hX, hcontrol, octalDigit_snd, put_eq hroom]
  | control hl =>
    rw [decodeString]
    simp [peek, hl, hbyte, put_eq hroom]
  | self hl =>
    obtain ⟨hx, hX, hdigit, hcontrol, -, hmem⟩ := isQuoted_not_letter hl
    rw [decodeString]
    simp only [List.mem_cons, List.not_mem_nil, or_false] at hmem
    simp [peek, hx, hX, hdigit, hcontrol, hmem, hbyte, put_eq hroom]

theorem scanString_cases (cp : Bytes) : scanString cp = some none ∨
    (∃ rest, cp = 34 :: rest ∧ scanString cp = some (some cp)) ∨ ∃ v cp', Step cp v cp' := by
  cases cp with
  | nil =>
    left
    rw [scanString]
  | cons c cp =>
    by_cases hend : c = 0 ∨ c = 10
    · left
      rw [scanString, if_pos hend]
    by_cases hquote : c = 34
    · right
      left
      rw [scanString, if_neg hend, if_pos hquote, hquote]
      exact ⟨cp, rfl, rfl⟩
    by_cases hslash : c = 92
    · subst hslash
      rw [scanString, if_neg hend, if_neg hquote, if_pos rfl]
      cases cp with
      | nil =>
        left
        rfl
      | cons l cp =>
        by_cases hx : l = 120 ∨ l = 88
        · rcases cp with _ | ⟨h1, cp⟩
          · left
            simp [peek, hx, isXDigit]
          cases hx1 : hexDecodeDigit h1 with
          | none =>
            left
            simp [peek, hx, isXDigit_iff, hx1]
          | some x1 =>
            rcases cp with _ | ⟨h2, cp⟩
            · left
              simp [peek, hx, isXDigit_iff, hexDecodeDigit]
            cases hx2 : hexDecodeDigit h2 with
            | none =>
              left
              simp [peek, hx, isXDigit_iff, hx2]
            | some x2 => exact .inr (.inr ⟨_, cp, .hex hx hx1 hx2⟩)
        by_cases hdigit : isODigit l = true
        · exact .inr (.inr ⟨_, _, .octal hdigit⟩)
        by_cases hmem : l ∈ ([110, 114, 116, 34, 92, 39] : Bytes)
        · right
          right
          cases hcontrol : controlLetter l with
          | some c => exact ⟨_, cp, .control hcontrol⟩
          | none =>
            refine ⟨_, cp, .self ?_⟩
            revert hcontrol
            simp only [List.mem_cons, List.not_mem_nil, or_false] at hmem
            rcases hmem with rfl | rfl | rfl | rfl | rfl | rfl <;> decide
        · left
          simp only [List.mem_cons, List.not_mem_nil, or_false] at hmem
          simp [peek, hx, hdigit, hmem]
    · right
      right
      exact ⟨_, cp, .char (fun h => hend (.inl h)) (fun h => hend (.inr h)) hquote hslash⟩

/-- What the first loop went over, by the characters' numbers. -/
inductive Steps : Bytes → List ℕ → Bytes → Prop
  | nil (cp : Bytes) : Steps cp [] cp
  | cons {cp cp' quote : Bytes} {v : ℕ} {vs : List ℕ} (h : Step cp v cp')
      (hrest : Steps cp' vs quote) : Steps cp (v :: vs) quote

section
variable (h : Steps cp vs quote)
include h

theorem Steps.length_le : quote.length + vs.length ≤ cp.length := by
  induction h with
  | nil => simp
  | cons h _ ih =>
    have hlt := h.length_lt
    rw [List.length_cons]
    omega

theorem Steps.suffix : quote <:+ cp := by
  induction h with
  | nil => exact List.suffix_refl _
  | cons h _ ih => exact ih.trans h.suffix

theorem scanString_steps : scanString cp = scanString quote := by
  induction h with
  | nil => rfl
  | cons h _ ih => rw [scanString_step h, ih]

end

/-- The first loop ends, and if it finds a closing quote it went over what is before that. -/
theorem scanString_spec (cp : Bytes) : scanString cp = some none ∨
    ∃ vs rest, scanString cp = some (some (34 :: rest)) ∧ Steps cp vs (34 :: rest) := by
  induction hn : cp.length using Nat.strong_induction_on generalizing cp with
  | _ n ih =>
    rcases scanString_cases cp with hnone | ⟨rest, rfl, hquote⟩ | ⟨v, cp', hstep⟩
    · exact .inl hnone
    · exact .inr ⟨[], rest, hquote, .nil _⟩
    · rw [scanString_step hstep]
      rcases ih _ (hn ▸ hstep.length_lt) cp' rfl with hnone | ⟨vs, rest, hquote, hsteps⟩
      · exact .inl hnone
      · exact .inr ⟨v :: vs, rest, hquote, .cons hstep hsteps⟩

/-- The second loop goes the same way: it writes the characters, or fails at a number that is
none. -/
theorem decodeString_steps (h : Steps cp vs (34 :: rest)) (hroom : out.length + vs.length < size) :
    decodeString size out cp = some
      (if ∀ v ∈ vs, v ≤ 255 then some (out ++ vs.map UInt8.ofNat, rest) else none) := by
  generalize hquote : 34 :: rest = quote at h
  induction h generalizing out with
  | nil =>
    subst hquote
    rw [decodeString, if_pos rfl, put_eq (by simpa using hroom)]
    simp
  | @cons cp cp' quote v vs h _ ih =>
    rw [List.length_cons] at hroom
    rw [decodeString_step h (by omega)]
    by_cases hv : v ≤ 255
    · rw [if_neg (not_lt.mpr hv), ih (by rw [List.length_append, List.length_singleton]; omega)
        hquote]
      simp [hv]
    · rw [if_pos (not_le.mp hv), if_neg fun hall => hv (hall v (List.mem_cons_self ..))]

end Steps

section Inverse
variable {s t outp : Bytes} {c : UInt8} {len : ℕ}

/-- The bytes for a character. -/
def escapedChar (c : UInt8) : Bytes :=
  if isQuoted c then [92, c]
  else match escapeLetter c with
    | some letter => [92, letter]
    | none => if isPrint c && c < 127 then [c] else octal c

theorem length_escapedChar (c : UInt8) : (escapedChar c).length = escapedLen c := by
  revert c
  decide +kernel

/-- What is written for a character fits, and it is what the first loop counted. -/
theorem escapeChar_eq (hroom : outp.length + escapedLen c + 2 ≤ len) :
    escapeChar len outp c = some (outp ++ escapedChar c) := by
  have hlength := length_escapedChar c
  have hpos : 0 < escapedLen c := by
    unfold escapedLen
    split_ifs <;> decide
  have hall : putAll len outp (escapedChar c) = some (outp ++ escapedChar c) :=
    putAll_eq (by omega)
  rw [escapeChar, if_pos (by omega)]
  unfold escapedChar at hall hlength ⊢
  by_cases hquoted : isQuoted c = true
  · simpa only [hquoted, if_true] using hall
  cases hletter : escapeLetter c with
  | some letter => simpa only [hquoted, Bool.false_eq_true, if_false, hletter] using hall
  | none =>
    simp only [hquoted, Bool.false_eq_true, if_false, hletter] at hall hlength ⊢
    split_ifs at hall hlength ⊢ with hprint hroom'
    · exact put_eq (by rw [List.length_singleton] at hlength; omega) c
    · rw [putAll_eq (by rw [List.length_append, List.length_singleton]; omega)]
      exact hall
    · have hfour : (octal c).length = 4 := rfl
      omega

theorem foldl_escapedLen (s : Bytes) (n : ℕ) :
    s.foldl (fun len c => len + escapedLen c) n = n + (s.flatMap escapedChar).length := by
  induction s generalizing n with
  | nil => rfl
  | cons c s ih =>
    rw [List.foldl_cons, ih, List.flatMap_cons, List.length_append, length_escapedChar, add_assoc]

theorem foldlM_escapeChar (hroom : outp.length + (s.flatMap escapedChar).length + 2 ≤ len) :
    s.foldlM (escapeChar len) outp = some (outp ++ s.flatMap escapedChar) := by
  induction s generalizing outp with
  | nil => simp
  | cons c s ih =>
    rw [List.flatMap_cons, List.length_append, length_escapedChar] at hroom
    rw [List.foldlM_cons, escapeChar_eq (by omega), Option.bind_eq_bind, Option.bind_some,
      ih (by rw [List.length_append, length_escapedChar]; omega), List.flatMap_cons,
      List.append_assoc]

/-- The text of a string in quotes. -/
def escaped (s : Bytes) : Bytes := [34] ++ s.flatMap escapedChar ++ [34]

theorem zero_not_mem_escaped (s : Bytes) : 0 ∉ escaped s := by
  have hall : ∀ c, 0 ∉ escapedChar c := by decide +kernel
  simp [escaped, hall]

theorem escapedSize_eq (s : Bytes) : escapedSize s = (escaped s ++ [0]).length := by
  rw [escapedSize, foldl_escapedLen]
  simp only [escaped, List.length_append, List.length_singleton]
  omega

theorem escForLog_eq (s : Bytes) : escForLog (some s) = some (escaped s ++ [0]) := by
  have hsize : escapedSize s = 3 + (s.flatMap escapedChar).length := foldl_escapedLen s 3
  have hquote : put (escapedSize s) ([] : Bytes) 34 = some [34] := put_eq (by rw [hsize]; simp) 34
  have hroom : ([34] ++ s.flatMap escapedChar : Bytes).length + 2 = escapedSize s := by
    rw [hsize, List.length_append, List.length_singleton]
    omega
  have hchars : s.foldlM (escapeChar (escapedSize s)) [34] = some ([34] ++ s.flatMap escapedChar) :=
    foldlM_escapeChar (by rw [← hroom, List.length_append])
  simp only [escForLog, hquote, hchars, Option.bind_eq_bind, Option.bind_some]
  rw [if_pos hroom.le, putAll_eq hroom.le]
  simp [escaped]

theorem step_escapedChar (c : UInt8) (cp : Bytes) : Step (escapedChar c ++ cp) c.toNat cp := by
  unfold escapedChar
  by_cases hquoted : isQuoted c = true
  · rw [if_pos hquoted]
    exact .self hquoted
  rw [if_neg hquoted]
  cases hletter : escapeLetter c with
  | some letter =>
    have hall : ∀ c, (escapeLetter c).all (controlLetter · == some c) = true := by decide +kernel
    have hcontrol := hall c
    rw [hletter] at hcontrol
    exact .control (eq_of_beq hcontrol)
  | none =>
    by_cases hprint : (isPrint c && c < 127) = true
    · have hall : ∀ c, (isPrint c && c < 127) = true → ¬isQuoted c = true →
          c ≠ 0 ∧ c ≠ 10 ∧ c ≠ 34 ∧ c ≠ 92 := by decide +kernel
      obtain ⟨hzero, hline, hquote, hslash⟩ := hall c hprint hquoted
      simp only [hprint, if_true]
      exact .char hzero hline hquote hslash
    · have hall : ∀ c : UInt8, isODigit (48 + c / 64) = true ∧ isODigit (48 + c / 8 % 8) = true ∧
          isODigit (48 + c % 8) = true ∧ (((48 + c / 64).toNat - 48) * 8 + (48 + c / 8 % 8).toNat -
            48) * 8 + (48 + c % 8).toNat - 48 = c.toNat := by decide +kernel
      obtain ⟨hfirst, hsecond, hthird, hvalue⟩ := hall c
      have hstep := @Step.octal _ ((48 + c / 8 % 8) :: (48 + c % 8) :: cp) hfirst
      simp only [octalDigit, skipODigit, hsecond, hthird, if_true, hvalue] at hstep
      simp only [hprint, Bool.false_eq_true, if_false]
      exact hstep

theorem steps_escaped (s cp : Bytes) :
    Steps (s.flatMap escapedChar ++ cp) (s.map UInt8.toNat) cp := by
  induction s with
  | nil => exact .nil cp
  | cons c s ih =>
    rw [List.flatMap_cons, List.append_assoc, List.map_cons]
    exact .cons (step_escapedChar c _) ih

theorem unescapeString_steps {cp rest : Bytes} {vs : List ℕ} (h : Steps cp vs (34 :: rest)) :
    unescapeString (34 :: cp) = some (if ∀ v ∈ vs, v ≤ 255 then
      some (vs.map UInt8.ofNat, vs.length, rest) else none) := by
  have hscan : scanString cp = some (some (34 :: rest)) := by
    rw [scanString_steps h, scanString]
    rfl
  have hlength := h.length_le
  have hroom : ([] : Bytes).length + vs.length < (34 :: cp).length - (34 :: rest).length + 1 := by
    rw [List.length_nil]
    simp only [List.length_cons] at hlength ⊢
    omega
  have hdecode := decodeString_steps h hroom
  simp only [unescapeString, if_true, hscan, Option.bind_eq_bind, Option.bind_some, hdecode]
  split_ifs <;> simp

theorem unescapeString_suffix {s out rest : Bytes} {n : ℕ}
    (h : unescapeString s = some (some (out, n, rest))) : n = out.length ∧ rest <:+ s := by
  cases s with
  | nil => cases h
  | cons c cp =>
    by_cases hc : c = 34
    · subst hc
      rcases scanString_spec cp with hnone | ⟨vs, rest', -, hsteps⟩
      · simp [unescapeString, hnone] at h
      · rw [unescapeString_steps hsteps] at h
        split_ifs at h <;> cases h
        exact ⟨(List.length_map _).symm,
          ((List.suffix_cons 34 rest).trans hsteps.suffix).trans (List.suffix_cons 34 cp)⟩
    · rw [unescapeString, if_neg hc] at h
      cases h

/-- Escaping fills its buffer, and unescaping is its inverse. -/
structure EscapeInverse (s t : Bytes) : Prop where
  escaped : ∃ text, escForLog (some s) = some (text ++ [0]) ∧
    (text ++ [0]).length = escapedSize s ∧
      unescapeString (text ++ t) = some (some (s, s.length, t))

/-- The loops of `unescape_string` agree on where the string ends, but that the second one may
refuse a number. -/
structure PassesAgree (input : Bytes) : Prop where
  returns : ∃ r, unescapeString input = some r
  agree : ∀ cp quote, input = 34 :: cp → scanString cp = some (some quote) →
    unescapeString input = some none ∨ ∃ out rest, quote = 34 :: rest ∧
      unescapeString input = some (some (out, out.length, rest))

theorem escape_inverse (s t : Bytes) : EscapeInverse s t := by
  refine ⟨CString.escaped s, escForLog_eq s, (escapedSize_eq s).symm, ?_⟩
  have hsteps := unescapeString_steps (steps_escaped s (34 :: t))
  have hbytes : ∀ v ∈ s.map UInt8.toNat, v ≤ 255 := by
    intro v hv
    obtain ⟨b, -, rfl⟩ := List.mem_map.mp hv
    exact Nat.le_of_lt_succ b.toNat_lt
  have hmap : (s.map UInt8.toNat).map UInt8.ofNat = s := by
    rw [List.map_map]
    exact List.map_id'' (fun b => UInt8.ofNat_toNat) s
  rw [if_pos hbytes, hmap, List.length_map] at hsteps
  rw [← hsteps]
  simp [CString.escaped]

theorem passes_agree (input : Bytes) : PassesAgree input := by
  cases input with
  | nil => exact ⟨⟨none, rfl⟩, fun cp quote h => by simp at h⟩
  | cons c cp =>
    by_cases hc : c = 34
    case neg => exact ⟨⟨none, if_neg hc⟩, fun cp' quote h => absurd (List.cons.inj h).1 hc⟩
    subst hc
    rcases scanString_spec cp with hnone | ⟨vs, rest, hquote, hsteps⟩
    · refine ⟨⟨none, ?_⟩, ?_⟩
      · simp [unescapeString, hnone]
      · intro cp' quote hcp hquote
        cases hcp
        rw [hnone] at hquote
        cases hquote
    · have hresult := unescapeString_steps hsteps
      refine ⟨⟨_, hresult⟩, ?_⟩
      intro cp' quote hcp hquote'
      cases hcp
      rw [hquote] at hquote'
      cases hquote'
      rw [hresult]
      split_ifs
      · exact .inr ⟨_, rest, rfl, by rw [List.length_map]⟩
      · exact .inl rfl

/-- For all strings, texts behind them and inputs. -/
theorem cstring_codec (s t input : Bytes) : EscapeInverse s t ∧ PassesAgree input :=
  ⟨escape_inverse s t, passes_agree input⟩

end Inverse

section Behind
variable {cp t q quote : Bytes} {v : ℕ} {vs : List ℕ}

/-- A text that cannot go on with an escape. -/
def EndsEscape (t : Bytes) : Prop := ∀ c ∈ t.head?, c = 10 ∨ c = 13

theorem EndsEscape.skipODigit_append (ht : EndsEscape t) (cp : Bytes) :
    skipODigit (cp ++ t) = skipODigit cp ++ t := by
  cases cp with
  | nil =>
    cases t with
    | nil => rfl
    | cons c t => rcases ht c rfl with rfl | rfl <;> rfl
  | cons c cp =>
    simp only [List.cons_append, skipODigit]
    split <;> rfl

theorem EndsEscape.octalDigit_append (ht : EndsEscape t) (n : ℕ) (cp : Bytes) :
    (octalDigit n (cp ++ t)).1 = (octalDigit n cp).1 := by
  cases cp with
  | nil =>
    cases t with
    | nil => rfl
    | cons c t => rcases ht c rfl with rfl | rfl <;> rfl
  | cons c cp =>
    simp only [List.cons_append, octalDigit]
    split <;> rfl

theorem Step.append (h : Step cp v q) (ht : EndsEscape t) : Step (cp ++ t) v (q ++ t) := by
  cases h with
  | char hzero hline hquote hslash => exact .char hzero hline hquote hslash
  | hex hl hx1 hx2 => exact .hex hl hx1 hx2
  | @octal l cp hl =>
    have hstep := @Step.octal _ (cp ++ t) hl
    rwa [ht.skipODigit_append, ht.octalDigit_append, ht.octalDigit_append,
      ht.skipODigit_append] at hstep
  | control hl => exact .control hl
  | self hl => exact .self hl

theorem Steps.append (h : Steps cp vs quote) (ht : EndsEscape t) :
    Steps (cp ++ t) vs (quote ++ t) := by
  induction h with
  | nil => exact .nil _
  | cons h _ ih => exact .cons (h.append ht) ih

section
variable (ht : EndsEscape t)
include ht

/-- Another character is one of the text before. -/
theorem EndsEscape.of_append_eq_cons {c : UInt8} {s : Bytes}
    (hc : c ≠ 10 ∧ c ≠ 13) (h : cp ++ t = c :: s) : ∃ cp', cp = c :: cp' ∧ cp' ++ t = s := by
  cases cp with
  | nil =>
    rw [List.nil_append] at h
    rcases ht c (by rw [h]; rfl) with rfl | rfl
    · exact absurd rfl hc.1
    · exact absurd rfl hc.2
  | cons c' cp' =>
    obtain ⟨rfl, hs⟩ := List.cons.inj h
    exact ⟨cp', rfl, hs⟩

theorem Step.of_append (hcp : cp ≠ []) (h : Step (cp ++ t) v q) :
    ∃ cp', q = cp' ++ t ∧ Step cp v cp' := by
  generalize hs : cp ++ t = s at h
  cases h with
  | char hzero hline hquote hslash =>
    obtain ⟨c, cp', rfl⟩ := List.exists_cons_of_ne_nil hcp
    cases hs
    exact ⟨cp', rfl, .char hzero hline hquote hslash⟩
  | @hex l h1 h2 _ _ _ hl hx1 hx2 =>
    have hdigit : ∀ c, (hexDecodeDigit c).isSome = true → c ≠ 10 ∧ c ≠ 13 := by decide +kernel
    have hl' : l ≠ 10 ∧ l ≠ 13 := by rcases hl with rfl | rfl <;> decide
    obtain ⟨cp, rfl, hs1⟩ := ht.of_append_eq_cons (by decide) hs
    obtain ⟨cp, rfl, hs2⟩ := ht.of_append_eq_cons hl' hs1
    obtain ⟨cp, rfl, hs3⟩ := ht.of_append_eq_cons (hdigit h1 (by rw [hx1]; rfl)) hs2
    obtain ⟨cp, rfl, rfl⟩ := ht.of_append_eq_cons (hdigit h2 (by rw [hx2]; rfl)) hs3
    exact ⟨cp, rfl, .hex hl hx1 hx2⟩
  | octal hl =>
    have hdigit : ∀ c, isODigit c = true → c ≠ 10 ∧ c ≠ 13 := by decide +kernel
    obtain ⟨cp, rfl, hs1⟩ := ht.of_append_eq_cons (by decide) hs
    obtain ⟨cp, rfl, rfl⟩ := ht.of_append_eq_cons (hdigit _ hl) hs1
    rw [ht.skipODigit_append, ht.octalDigit_append, ht.octalDigit_append, ht.skipODigit_append]
    exact ⟨_, rfl, .octal hl⟩
  | @control l _ _ hl =>
    have hletter : ∀ c, (controlLetter c).isSome = true → c ≠ 10 ∧ c ≠ 13 := by decide +kernel
    obtain ⟨cp, rfl, hs1⟩ := ht.of_append_eq_cons (by decide) hs
    obtain ⟨cp, rfl, rfl⟩ := ht.of_append_eq_cons (hletter l (by rw [hl]; rfl)) hs1
    exact ⟨cp, rfl, .control hl⟩
  | self hl =>
    have hquoted : ∀ c, isQuoted c = true → c ≠ 10 ∧ c ≠ 13 := by decide +kernel
    obtain ⟨cp, rfl, hs1⟩ := ht.of_append_eq_cons (by decide) hs
    obtain ⟨cp, rfl, rfl⟩ := ht.of_append_eq_cons (hquoted _ hl) hs1
    exact ⟨cp, rfl, .self hl⟩

theorem scanString_append (hscan : scanString t = some none)
    (h : scanString cp = some none) : scanString (cp ++ t) = some none := by
  induction hn : cp.length using Nat.strong_induction_on generalizing cp with
  | _ n ih =>
    by_cases hcp : cp = []
    · rwa [hcp, List.nil_append]
    rcases scanString_cases (cp ++ t) with hnone | ⟨rest, hquote, -⟩ | ⟨v, q, hstep⟩
    · exact hnone
    · obtain ⟨c, cp', rfl⟩ := List.exists_cons_of_ne_nil hcp
      rw [List.cons_append, List.cons.injEq] at hquote
      rw [hquote.1, scanString] at h
      simp at h
    · obtain ⟨cp', rfl, hstep'⟩ := hstep.of_append ht hcp
      rw [scanString_step hstep]
      rw [scanString_step hstep'] at h
      exact ih _ (hn ▸ hstep'.length_lt) h rfl

/-- A string that is read, or refused, within a text, is so whatever is behind. -/
theorem unescapeString_append (hscan : scanString t = some none) (s : Bytes) :
    unescapeString (s ++ t) =
      (unescapeString s).map (Option.map fun r => (r.1, r.2.1, r.2.2 ++ t)) := by
  cases s with
  | nil =>
    cases t with
    | nil => rfl
    | cons c t => rcases ht c rfl with rfl | rfl <;> rfl
  | cons c cp =>
    by_cases hc : c = 34
    · subst hc
      rcases scanString_spec cp with hnone | ⟨vs, rest, -, hsteps⟩
      · simp [unescapeString, hnone, scanString_append ht hscan hnone]
      · rw [List.cons_append, unescapeString_steps (hsteps.append ht), unescapeString_steps hsteps]
        split <;> rfl
    · rw [List.cons_append, unescapeString, if_neg hc, unescapeString, if_neg hc]
      rfl

end

end Behind

end TorDaemon.Encoding.CString
