import TorDaemon.Library.Scanner

/-! Protocol lists: a name and a mask of versions for each entry, how they are parsed and
how they are written. Text is a list of characters, without the terminator. -/
namespace TorDaemon.Protover
open Library.Scanner

structure ProtoEntry where
  name : List Char
  bitmask : BitVec 64
  deriving DecidableEq

def maxProtocolNameLength : ℕ := 100

def maxProtocolVersion : ℕ := 63

section Parsing

def startsWithDigit (s : List Char) : Bool := s.head?.any Char.isDigit

/-- `tor_parse_ulong` in base ten, for text that starts with a digit: the value, and what
follows it. -/
def parseUlong (s : List Char) (low high : ℕ) : Option (ℕ × List Char) :=
  let value := Nat.ofDigitChars 10 (s.takeWhile Char.isDigit) 0
  if low ≤ value ∧ value ≤ high then some (value, s.dropWhile Char.isDigit) else none

/-- `parse_version_range`. No character that can follow the range is a digit. -/
def parseVersionRange (s : List Char) : Option (ℕ × ℕ) :=
  if !startsWithDigit s then none
  else do
    let (low, next) ← parseUlong s 0 maxProtocolVersion
    match next with
    | [] => some (low, low)
    | c :: s =>
      if c ≠ '-' then none
      else if !startsWithDigit s then none
      else do
        let (high, next) ← parseUlong s 0 maxProtocolVersion
        if next ≠ [] then none
        else if high < low then none
        else some (low, high)

def isValidKeyword (s : List Char) : Bool := s.all fun c => c.isAlphanum || c = '-'

def bitmaskForRange (low high : ℕ) : BitVec 64 :=
  ((BitVec.allOnes 64 <<< (63 - high)) >>> (63 - high + low)) <<< low

theorem parseVersionRange_nil : parseVersionRange [] = none := rfl

/-- The loop of `parse_single_entry` over the ranges. A comma at the very end is not
skipped, and then fails as a range. -/
def parseRanges (s : List Char) (bitmask : BitVec 64) : Option (BitVec 64) :=
  if s = [] then some bitmask
  else
    match _ : parseVersionRange (s.takeWhile (· != ',')) with
    | none => none
    | some (low, high) =>
      let comma := s.dropWhile (· != ',')
      parseRanges (if 1 < comma.length then comma.tail else comma)
        (bitmask ||| bitmaskForRange low high)
termination_by s.length
decreasing_by
  have hrange := ‹parseVersionRange _ = some _›
  have hlt : (s.dropWhile (· != ',')).length < s.length := by
    refine dropWhile_length_lt fun hnil => ?_
    rw [hnil, parseVersionRange_nil] at hrange
    simp at hrange
  split
  · rw [List.length_tail]
    omega
  · exact hlt

theorem parseRanges_of_some {s : List Char} {bitmask : BitVec 64} {low high : ℕ}
    (hrange : parseVersionRange (s.takeWhile (· != ',')) = some (low, high)) :
    parseRanges s bitmask =
      parseRanges (if 1 < (s.dropWhile (· != ',')).length then (s.dropWhile (· != ',')).tail
        else s.dropWhile (· != ',')) (bitmask ||| bitmaskForRange low high) := by
  have hs : s ≠ [] := by
    rintro rfl
    rw [List.takeWhile_nil, parseVersionRange_nil] at hrange
    simp at hrange
  rw [parseRanges, if_neg hs]
  split <;> simp_all

def parseSingleEntry (s : List Char) : Option ProtoEntry :=
  let name := s.takeWhile (· != '=')
  if '=' ∉ s then none
  else if name = [] then none
  else if maxProtocolNameLength < name.length then none
  else if !isValidKeyword name then none
  else (parseRanges (s.dropWhile (· != '=')).tail 0).map fun bitmask => ⟨name, bitmask⟩

theorem parseSingleEntry_nil : parseSingleEntry [] = none := rfl

def parseProtocolList (s : List Char) : Option (List ProtoEntry) :=
  if s = [] then some []
  else
    match _ : parseSingleEntry (s.takeWhile (· != ' ')) with
    | none => none
    | some entry =>
      (parseProtocolList ((s.dropWhile (· != ' ')).dropWhile (· == ' '))).map (entry :: ·)
termination_by s.length
decreasing_by
  have hentry := ‹parseSingleEntry _ = some _›
  refine lt_of_le_of_lt (dropWhile_length_le _ _) (dropWhile_length_lt fun hnil => ?_)
  rw [hnil, parseSingleEntry_nil] at hentry
  simp at hentry

theorem parseProtocolList_of_some {s : List Char} {entry : ProtoEntry}
    (hentry : parseSingleEntry (s.takeWhile (· != ' ')) = some entry) : parseProtocolList s =
      (parseProtocolList ((s.dropWhile (· != ' ')).dropWhile (· == ' '))).map (entry :: ·) := by
  have hs : s ≠ [] := by
    rintro rfl
    rw [List.takeWhile_nil, parseSingleEntry_nil] at hentry
    simp at hentry
  rw [parseProtocolList, if_neg hs]
  split <;> simp_all

end Parsing

section Encoding

/-- `trailing_zeros`; `none` is a call with 0, whose result is undefined. -/
def trailingZeros (x : BitVec 64) : Option ℕ := (List.range 64).find? fun i => x.getLsbD i

/-- A run of versions: the first one, and how many there are. -/
structure Run where
  shift : ℕ
  ones : ℕ
  deriving DecidableEq

theorem trailingZeros_eq_some {x : BitVec 64} {k : ℕ} : trailingZeros x = some k ↔
    x.getLsbD k = true ∧ k < 64 ∧ ∀ i < k, x.getLsbD i = false := by
  simp [trailingZeros, List.find?_range_eq_some]

theorem trailingZeros_eq_none {x : BitVec 64} : trailingZeros x = none ↔ x = 0 := by
  simp only [trailingZeros, List.find?_range_eq_none, Bool.not_eq_eq_eq_not, Bool.not_true]
  exact ⟨fun h => BitVec.eq_of_getLsbD_eq fun i hi => by simp [h i hi], fun h => by simp [h]⟩

theorem shift_toNat_lt {mask : BitVec 64} {ones : ℕ} (hmask : mask ≠ 0) (hones : 0 < ones) :
    (mask >>> ones).toNat < mask.toNat := by
  rw [BitVec.toNat_ushiftRight, Nat.shiftRight_eq_div_pow]
  refine Nat.div_lt_self (Nat.pos_of_ne_zero fun h => hmask ?_) (Nat.one_lt_two_pow hones.ne')
  exact BitVec.eq_of_toNat_eq h

/-- The number of ones at the low end: `!mask ? 64 : trailing_zeros(~mask)`. -/
def trailingOnes (mask : BitVec 64) : Option ℕ :=
  if mask = 0 then some 64 else trailingZeros (~~~mask)

theorem shift_ne_zero {mask : BitVec 64} {zeros : ℕ} (hzeros : trailingZeros mask = some zeros) :
    mask >>> zeros ≠ 0 := by
  intro h
  have hbit := congrArg (fun x => x.getLsbD 0) h
  simp [(trailingZeros_eq_some.mp hzeros).1] at hbit

theorem trailingOnes_shift {mask : BitVec 64} {zeros : ℕ}
    (hzeros : trailingZeros mask = some zeros) :
    trailingOnes (mask >>> zeros) = trailingZeros (~~~(mask >>> zeros)) :=
  if_neg (shift_ne_zero hzeros)

/-- A run that starts at the lowest bit is not empty. -/
theorem ones_pos {mask : BitVec 64} {zeros ones : ℕ} (hzeros : trailingZeros mask = some zeros)
    (hones : trailingOnes (mask >>> zeros) = some ones) : 0 < ones := by
  rw [trailingOnes_shift hzeros] at hones
  have hbit := (trailingZeros_eq_some.mp hzeros).1
  have hnot := (trailingZeros_eq_some.mp hones).1
  refine Nat.pos_of_ne_zero fun hzero => ?_
  simp [hzero, hbit] at hnot

/-- The loop of `proto_entry_encode_into`: the runs that it writes. -/
def encodeRuns (mask : BitVec 64) (shift : ℕ) : Option (List Run) :=
  if mask = 0 then some []
  else
    match _ : trailingZeros mask with
    | none => none
    | some zeros =>
      match _ : trailingOnes (mask >>> zeros) with
      | none => none
      | some ones =>
        if ones = 64 then some [⟨shift + zeros, ones⟩]
        else (encodeRuns (mask >>> zeros >>> ones) (shift + zeros + ones)).map
          (⟨shift + zeros, ones⟩ :: ·)
termination_by mask.toNat
decreasing_by
  have hzeros := ‹trailingZeros mask = some zeros›
  have hones := ‹trailingOnes _ = some ones›
  refine lt_of_lt_of_le (shift_toNat_lt (shift_ne_zero hzeros) (ones_pos hzeros hones)) ?_
  rw [BitVec.toNat_ushiftRight]
  exact Nat.shiftRight_le _ _

/-- `%d`, or `%d-%d` for more than one version. -/
def Run.text (run : Run) : List Char :=
  if run.ones = 1 then Nat.toDigits 10 run.shift
  else Nat.toDigits 10 run.shift ++ '-' :: Nat.toDigits 10 (run.shift + run.ones - 1)

/-- `proto_entry_encode_into`. -/
def protoEntryEncode (entry : ProtoEntry) : Option (List Char) :=
  (encodeRuns entry.bitmask 0).map fun runs =>
    entry.name ++ '=' :: joined ',' (runs.map Run.text)

def encodeProtocolList (sl : List ProtoEntry) : Option (List Char) :=
  (sl.mapM protoEntryEncode).map (joined ' ')

end Encoding

/-! What is encoded parses to the same entries. The one mask that the encoder cannot write
is the one with all 64 versions. -/

section Runs

/-- The versions of a run. -/
def Run.covers (run : Run) (i : ℕ) : Prop := run.shift ≤ i ∧ i < run.shift + run.ones

/-- A run that is written as a range of versions up to 63. -/
structure Run.WellFormed (run : Run) : Prop where
  pos : 0 < run.ones
  le : run.shift + run.ones ≤ 64

theorem shift_ne_allOnes {mask : BitVec 64} {k : ℕ} (hk : 0 < k) :
    mask >>> k ≠ BitVec.allOnes 64 := by
  intro h
  have hbit := congrArg (fun x => x.getLsbD 63) h
  simp [BitVec.getLsbD_of_ge mask (k + 63) (by omega)] at hbit

theorem not_eq_zero_iff {mask : BitVec 64} : ~~~mask = 0 ↔ mask = BitVec.allOnes 64 := by
  constructor
  · intro h
    simpa using congrArg (~~~·) h
  · rintro rfl
    decide

theorem encodeRuns_isSome {mask : BitVec 64} {shift : ℕ} (h : mask ≠ BitVec.allOnes 64) :
    (encodeRuns mask shift).isSome := by
  fun_induction encodeRuns mask shift with
  | case1 => rfl
  | case2 mask shift hmask hzeros => exact absurd (trailingZeros_eq_none.mp hzeros) hmask
  | case3 mask shift hmask zeros hzeros hones =>
    rw [trailingOnes_shift hzeros, trailingZeros_eq_none, not_eq_zero_iff] at hones
    obtain rfl | hpos := Nat.eq_zero_or_pos zeros
    · exact absurd (by simpa using hones) h
    · exact absurd hones (shift_ne_allOnes hpos)
  | case4 => rfl
  | case5 mask shift hmask zeros hzeros ones hones _ ih =>
    rw [Option.isSome_map]
    exact ih (shift_ne_allOnes (ones_pos hzeros hones))

theorem encodeRuns_allOnes (shift : ℕ) : encodeRuns (BitVec.allOnes 64) shift = none := by
  have hstuck (zeros ones : ℕ) (hzeros : trailingZeros (BitVec.allOnes 64) = some zeros)
      (hones : trailingOnes (BitVec.allOnes 64 >>> zeros) = some ones) : False := by
    obtain rfl : 0 = zeros := Option.some.inj (Eq.trans (by decide) hzeros)
    exact absurd (Eq.trans (by decide : none = trailingOnes (BitVec.allOnes 64 >>> 0)) hones)
      (by simp)
  fun_cases encodeRuns (BitVec.allOnes 64) shift with
  | case1 => contradiction
  | case2 => rfl
  | case3 => rfl
  | case4 _ zeros hzeros hones => exact (hstuck zeros 64 hzeros hones).elim
  | case5 _ zeros hzeros ones hones => exact (hstuck zeros ones hzeros hones).elim

theorem encodeRuns_covers {mask : BitVec 64} {shift : ℕ} {runs : List Run}
    (hruns : encodeRuns mask shift = some runs)
    (hbits : ∀ i, mask.getLsbD i = true → shift + i < 64) : (∀ run ∈ runs, run.WellFormed) ∧
      ∀ i, (∃ run ∈ runs, run.covers i) ↔ shift ≤ i ∧ mask.getLsbD (i - shift) = true := by
  fun_induction encodeRuns mask shift generalizing runs with
  | case1 =>
    cases hruns
    simp
  | case2 => simp at hruns
  | case3 => simp at hruns
  | case4 mask shift hmask zeros hzeros hones =>
    rw [trailingOnes_shift hzeros, trailingZeros_eq_some] at hones
    omega
  | case5 mask shift hmask zeros hzeros ones hones _ ih =>
    obtain ⟨rest, hrest, rfl⟩ := Option.map_eq_some_iff.mp hruns
    have hpos := ones_pos hzeros hones
    obtain ⟨hfirst, -, hbefore⟩ := trailingZeros_eq_some.mp hzeros
    rw [trailingOnes_shift hzeros] at hones
    obtain ⟨-, hlt, hrun⟩ := trailingZeros_eq_some.mp hones
    have hones' (i : ℕ) (hi : i < ones) : mask.getLsbD (zeros + i) = true := by
      have h := hrun i hi
      simpa [show i < 64 by omega] using h
    have hlast := hbits _ (hones' (ones - 1) (by omega))
    obtain ⟨hwf, hcovers⟩ := ih hrest fun i hi => by
      have h := hbits (zeros + (ones + i)) (by simpa using hi)
      omega
    refine ⟨?_, fun i => ?_⟩
    · rintro run (_ | hrun)
      · exact ⟨hpos, by simp only; omega⟩
      · exact hwf run ‹_›
    · simp only [List.mem_cons, exists_eq_or_imp, hcovers]
      by_cases hlow : i < shift + zeros
      · have hbit : shift ≤ i → mask.getLsbD (i - shift) = false :=
          fun _ => hbefore _ (by omega)
        simp only [Run.covers]
        grind
      · by_cases hhigh : i < shift + zeros + ones
        · have hbit := hones' (i - (shift + zeros)) (by omega)
          simp only [Run.covers]
          grind
        · simp only [Run.covers, BitVec.getLsbD_ushiftRight,
            show zeros + (ones + (i - (shift + zeros + ones))) = i - shift by omega]
          grind

end Runs

section Ranges
variable {run : Run} {runs : List Run} {bitmask : BitVec 64}

theorem startsWithDigit_toDigits (n : ℕ) (rest : List Char) :
    startsWithDigit (Nat.toDigits 10 n ++ rest) = true := by
  cases hdigits : Nat.toDigits 10 n with
  | nil => exact absurd hdigits Nat.toDigits_ne_nil
  | cons c cs =>
    have hc : c ∈ Nat.toDigits 10 n := by simp [hdigits]
    simpa [startsWithDigit] using Nat.isDigit_of_mem_toDigits (by decide) (by decide) hc

/-- A number is read back up to the first character that is no digit. -/
theorem parseUlong_toDigits {n : ℕ} (hn : n ≤ maxProtocolVersion) (rest : List Char)
    (hrest : startsWithDigit rest = false) :
    parseUlong (Nat.toDigits 10 n ++ rest) 0 maxProtocolVersion = some (n, rest) := by
  have hdigits : ∀ c ∈ Nat.toDigits 10 n, Char.isDigit c = true :=
    fun c hc => Nat.isDigit_of_mem_toDigits (by decide) (by decide) hc
  have hnone : rest.takeWhile Char.isDigit = [] ∧ rest.dropWhile Char.isDigit = rest := by
    cases rest with
    | nil => exact ⟨rfl, rfl⟩
    | cons c cs =>
      have hc : Char.isDigit c = false := by simpa [startsWithDigit] using hrest
      exact ⟨by simp [hc], by simp [hc]⟩
  simp only [parseUlong, List.takeWhile_append_of_pos hdigits,
    List.dropWhile_append_of_pos hdigits, hnone.1, hnone.2, List.append_nil,
    Nat.ofDigitChars_ten_toDigits, Nat.zero_le, true_and, hn, if_true]

theorem parseVersionRange_text (h : run.WellFormed) :
    parseVersionRange run.text = some (run.shift, run.shift + run.ones - 1) := by
  have hpos := h.pos
  have hle := h.le
  have hlow : run.shift ≤ maxProtocolVersion := by simp only [maxProtocolVersion]; omega
  have hhigh : run.shift + run.ones - 1 ≤ maxProtocolVersion := by
    simp only [maxProtocolVersion]; omega
  unfold Run.text
  split_ifs with hone
  · have hstart := startsWithDigit_toDigits run.shift []
    have hparse := parseUlong_toDigits hlow [] rfl
    rw [List.append_nil] at hstart hparse
    simp [parseVersionRange, hstart, hparse, hone]
  · have hstart := startsWithDigit_toDigits (run.shift + run.ones - 1) []
    have hparse := parseUlong_toDigits hhigh [] rfl
    rw [List.append_nil] at hstart hparse
    have hlt : ¬ run.shift + run.ones - 1 < run.shift := by omega
    simp [parseVersionRange, startsWithDigit_toDigits, parseUlong_toDigits hlow _
      (by rfl : startsWithDigit ('-' :: _) = false), hstart, hparse, hlt]

theorem text_chars (run : Run) : ∀ c ∈ run.text, c.isDigit = true ∨ c = '-' := by
  intro c hc
  have hdigit (n : ℕ) (h : c ∈ Nat.toDigits 10 n) : c.isDigit = true :=
    Nat.isDigit_of_mem_toDigits (by decide) (by decide) h
  unfold Run.text at hc
  split_ifs at hc
  · exact .inl (hdigit _ hc)
  · obtain hc | rfl | hc := by simpa using hc
    · exact .inl (hdigit _ hc)
    · exact .inr rfl
    · exact .inl (hdigit _ hc)

theorem text_ne_nil (run : Run) : run.text ≠ [] := by
  unfold Run.text
  split_ifs <;> simp [Nat.toDigits_ne_nil]

/-- The mask of all runs. -/
def maskOf (bitmask : BitVec 64) (runs : List Run) : BitVec 64 :=
  runs.foldl (fun bitmask run =>
    bitmask ||| bitmaskForRange run.shift (run.shift + run.ones - 1)) bitmask

theorem parseRanges_joined (h : ∀ run ∈ runs, run.WellFormed) :
    parseRanges (joined ',' (runs.map Run.text)) bitmask = some (maskOf bitmask runs) := by
  induction runs generalizing bitmask with
  | nil =>
    rw [parseRanges]
    rfl
  | cons run runs ih =>
    have hplain : ∀ c ∈ run.text, (c != ',') = true := fun c hc => by
      obtain hdigit | rfl := text_chars run c hc
      · rw [bne_iff_ne]
        rintro rfl
        contradiction
      · decide
    have hrun := parseVersionRange_text (h run (by simp))
    have hrest := @ih (bitmask ||| bitmaskForRange run.shift (run.shift + run.ones - 1))
      fun run hrun => h run (List.mem_cons_of_mem _ hrun)
    cases runs with
    | nil =>
      have htake : run.text.takeWhile (· != ',') = run.text := List.takeWhile_eq_self_iff.mpr hplain
      have hdrop : run.text.dropWhile (· != ',') = [] := List.dropWhile_eq_nil_iff.mpr hplain
      rw [List.map_singleton, joined, parseRanges_of_some (htake.symm ▸ hrun), hdrop]
      exact hrest
    | cons run' runs =>
      have hcomma : (',' != ',') = false := by decide
      have hnil : joined ',' ((run' :: runs).map Run.text) ≠ [] := joined_ne_nil (text_ne_nil run')
      have hlong := List.length_pos_iff.mpr hnil
      rw [List.map_cons, List.map_cons, joined, ← List.map_cons,
        parseRanges_of_some ((takeWhile_until hplain hcomma).symm ▸ hrun),
        dropWhile_until hplain hcomma, List.length_cons, if_pos (by omega), List.tail_cons]
      exact hrest

end Ranges

section Lists
variable {entry : ProtoEntry} {sl : List ProtoEntry} {s : List Char}

/-- The names that the parser accepts. -/
structure LegalName (name : List Char) : Prop where
  ne_nil : name ≠ []
  length_le : name.length ≤ maxProtocolNameLength
  valid : isValidKeyword name = true

theorem bitmaskForRange_getLsbD {low high i : ℕ} (hhigh : high < 64) :
    (bitmaskForRange low high).getLsbD i = decide (low ≤ i ∧ i ≤ high) := by
  simp only [bitmaskForRange, BitVec.getLsbD_shiftLeft, BitVec.getLsbD_ushiftRight,
    BitVec.getLsbD_allOnes]
  grind

theorem maskOf_getLsbD {runs : List Run} {bitmask : BitVec 64} {i : ℕ}
    (h : ∀ run ∈ runs, run.WellFormed) : (maskOf bitmask runs).getLsbD i = true ↔
      bitmask.getLsbD i = true ∨ ∃ run ∈ runs, run.covers i := by
  induction runs generalizing bitmask with
  | nil => simp [maskOf]
  | cons run runs ih =>
    have hrun := h run (by simp)
    have hpos := hrun.pos
    have hle := hrun.le
    have hrest := @ih (bitmask ||| bitmaskForRange run.shift (run.shift + run.ones - 1))
      fun run hrun => h run (List.mem_cons_of_mem _ hrun)
    rw [show maskOf bitmask (run :: runs) = maskOf _ runs from rfl, hrest, BitVec.getLsbD_or,
      bitmaskForRange_getLsbD (by omega)]
    simp only [List.mem_cons, exists_eq_or_imp, Run.covers, Bool.or_eq_true, decide_eq_true_eq]
    grind

theorem maskOf_encodeRuns {mask : BitVec 64} {runs : List Run} (h : encodeRuns mask 0 = some runs) :
    (∀ run ∈ runs, run.WellFormed) ∧ maskOf 0 runs = mask := by
  obtain ⟨hwf, hcovers⟩ := encodeRuns_covers h fun i hi => by
    by_contra hge
    rw [BitVec.getLsbD_of_ge mask i (by omega)] at hi
    contradiction
  refine ⟨hwf, BitVec.eq_of_getLsbD_eq fun i _ => ?_⟩
  rw [Bool.eq_iff_iff, maskOf_getLsbD hwf, hcovers]
  simp

/-- The text of an entry. -/
def entryText (entry : ProtoEntry) (runs : List Run) : List Char :=
  entry.name ++ '=' :: joined ',' (runs.map Run.text)

theorem LegalName.char_ne {name : List Char} (h : LegalName name) {d : Char}
    (hd : (d.isAlphanum || d = '-') = false) : ∀ c ∈ name, (c != d) = true := by
  intro c hc
  rw [bne_iff_ne]
  rintro rfl
  have hvalid := List.all_eq_true.mp h.valid c hc
  rw [hd] at hvalid
  contradiction

theorem mem_joined {a c : Char} {ls : List (List Char)} (h : c ∈ joined a ls) :
    c = a ∨ ∃ l ∈ ls, c ∈ l := by
  induction ls with
  | nil => simp [joined] at h
  | cons l ls ih =>
    cases ls with
    | nil => exact .inr ⟨l, by simp, h⟩
    | cons l' ls =>
      obtain hl | rfl | hrest := by simpa [joined] using h
      · exact .inr ⟨l, by simp, hl⟩
      · exact .inl rfl
      · obtain rfl | ⟨l₁, hl₁, hc⟩ := ih hrest
        · exact .inl rfl
        · exact .inr ⟨l₁, List.mem_cons_of_mem _ hl₁, hc⟩

theorem entryText_no_space (runs : List Run) (h : LegalName entry.name) :
    ∀ c ∈ entryText entry runs, (c != ' ') = true := by
  intro c hc
  obtain hname | rfl | hruns := by simpa [entryText] using hc
  · exact h.char_ne (by decide) c hname
  · decide
  · obtain rfl | ⟨l, hl, hc⟩ := mem_joined hruns
    · decide
    · obtain ⟨run, -, rfl⟩ := List.mem_map.mp hl
      obtain hdigit | rfl := text_chars run c hc
      · rw [bne_iff_ne]
        rintro rfl
        contradiction
      · decide

theorem parseSingleEntry_entryText {runs : List Run} (h : LegalName entry.name)
    (hruns : encodeRuns entry.bitmask 0 = some runs) :
    parseSingleEntry (entryText entry runs) = some entry := by
  obtain ⟨hwf, hmask⟩ := maskOf_encodeRuns hruns
  have hname := h.char_ne (d := '=') (by decide)
  have hequals : ('=' != '=') = false := by decide
  have hlength := h.length_le
  simp only [parseSingleEntry, entryText, takeWhile_until hname hequals,
    dropWhile_until hname hequals, h.ne_nil, h.valid, parseRanges_joined hwf, hmask, List.tail_cons,
    List.mem_append, List.mem_cons, true_or, or_true, not_true_eq_false, if_false,
    Bool.not_true, Bool.false_eq_true, if_neg (Nat.not_lt.mpr hlength), Option.map_some]

theorem entryText_dropWhile (runs : List Run) (h : LegalName entry.name) (rest : List Char) :
    (entryText entry runs ++ rest).dropWhile (· == ' ') = entryText entry runs ++ rest := by
  obtain ⟨c, cs, hname⟩ := List.exists_cons_of_ne_nil h.ne_nil
  have hc : (c == ' ') = false := by
    simpa using h.char_ne (d := ' ') (by decide) c (by simp [hname])
  simp [entryText, hname, hc]

theorem parseProtocolList_joined {texts : List (List Char)} (h : ∀ e ∈ sl, LegalName e.name)
    (htexts : sl.mapM protoEntryEncode = some texts) :
    parseProtocolList (joined ' ' texts) = some sl ∧
      (joined ' ' texts).dropWhile (· == ' ') = joined ' ' texts := by
  induction sl generalizing texts with
  | nil =>
    obtain rfl : [] = texts := by simpa using htexts
    rw [joined, parseProtocolList, if_pos rfl]
    exact ⟨rfl, rfl⟩
  | cons entry sl ih =>
    have hname := h entry (by simp)
    have hrest := fun e he => h e (List.mem_cons_of_mem _ he)
    simp only [List.mapM_cons, protoEntryEncode, Option.bind_eq_bind, Option.bind_eq_some_iff,
      Option.map_eq_some_iff, Option.pure_def, Option.some.injEq] at htexts
    obtain ⟨text, ⟨runs, hruns, htext⟩, texts, htexts, rfl⟩ := htexts
    change entryText entry runs = text at htext
    obtain ⟨hlist, hstart⟩ := ih hrest htexts
    have hparse := parseSingleEntry_entryText hname hruns
    have hplain := entryText_no_space runs hname
    have hspace : (' ' != ' ') = false := by decide
    subst htext
    cases texts with
    | nil =>
      have hnil := entryText_dropWhile runs hname []
      have htake : (entryText entry runs).takeWhile (· != ' ') = entryText entry runs :=
        List.takeWhile_eq_self_iff.mpr hplain
      rw [joined, parseProtocolList_of_some (htake.symm ▸ hparse),
        List.dropWhile_eq_nil_iff.mpr hplain, List.dropWhile_nil]
      rw [joined] at hlist
      exact ⟨by rw [hlist]; rfl, by simpa using hnil⟩
    | cons text' texts =>
      rw [joined, parseProtocolList_of_some ((takeWhile_until hplain hspace).symm ▸ hparse),
        dropWhile_until hplain hspace, List.dropWhile_cons_of_pos (by decide), hstart, hlist]
      exact ⟨rfl, entryText_dropWhile _ hname _⟩

theorem parseSingleEntry_legal (h : parseSingleEntry s = some entry) : LegalName entry.name := by
  simp only [parseSingleEntry] at h
  split_ifs at h with hequals hnil hlong hvalid
  obtain ⟨bitmask, -, rfl⟩ := Option.map_eq_some_iff.mp h
  exact ⟨hnil, Nat.not_lt.mp hlong, by simpa using hvalid⟩

theorem parseProtocolList_legal (h : parseProtocolList s = some sl) :
    ∀ e ∈ sl, LegalName e.name := by
  fun_induction parseProtocolList s generalizing sl with
  | case1 =>
    cases h
    simp
  | case2 => simp at h
  | case3 s hs entry hentry ih =>
    obtain ⟨rest, hrest, rfl⟩ := Option.map_eq_some_iff.mp h
    rintro e (_ | he)
    · exact parseSingleEntry_legal hentry
    · exact ih hrest e ‹_›

/-- The encoder gets stuck if there is an entry with all 64 versions, and only then. -/
theorem encodeProtocolList_isSome :
    (encodeProtocolList sl).isSome = true ↔ ∀ e ∈ sl, e.bitmask ≠ BitVec.allOnes 64 := by
  rw [encodeProtocolList, Option.isSome_map]
  induction sl with
  | nil => simp
  | cons entry sl ih =>
    have hentry : (protoEntryEncode entry).isSome = true ↔ entry.bitmask ≠ BitVec.allOnes 64 := by
      rw [protoEntryEncode, Option.isSome_map]
      refine ⟨fun hsome hall => ?_, encodeRuns_isSome⟩
      rw [hall, encodeRuns_allOnes] at hsome
      contradiction
    rw [List.forall_mem_cons, ← hentry, ← ih, List.mapM_cons]
    cases protoEntryEncode entry <;> cases sl.mapM protoEntryEncode <;> simp

theorem encode_parse (h : ∀ e ∈ sl, LegalName e.name) :
    (∃ t, encodeProtocolList sl = some t ∧ parseProtocolList t = some sl) ↔
      ∀ e ∈ sl, e.bitmask ≠ BitVec.allOnes 64 := by
  rw [← encodeProtocolList_isSome]
  constructor
  · rintro ⟨t, ht, -⟩
    rw [ht]
    rfl
  · intro hsome
    obtain ⟨t, ht⟩ := Option.isSome_iff_exists.mp hsome
    obtain ⟨texts, htexts, rfl⟩ := Option.map_eq_some_iff.mp ht
    exact ⟨_, ht, (parseProtocolList_joined h htexts).1⟩

/-- A list of entries with legal names and non-zero masks, and a list that was parsed,
survive the round trip, with no undefined call of `trailing_zeros`, exactly where no entry
has all 64 versions. -/
theorem protocol_list_round_trip (sl : List ProtoEntry)
    (h : (∀ e ∈ sl, LegalName e.name ∧ e.bitmask ≠ 0) ∨ ∃ s, parseProtocolList s = some sl) :
    (∃ t, encodeProtocolList sl = some t ∧ parseProtocolList t = some sl) ↔
      ∀ e ∈ sl, e.bitmask ≠ BitVec.allOnes 64 := by
  obtain hentries | ⟨s, hparse⟩ := h
  · exact encode_parse fun e he => (hentries e he).1
  · exact encode_parse (parseProtocolList_legal hparse)

theorem protocol_list_round_trip_link :
    (∃ t, encodeProtocolList [⟨['L'], 0x8000000000000006⟩] = some t ∧
      parseProtocolList t = some [⟨['L'], 0x8000000000000006⟩]) ∧
    ∃ t, encodeProtocolList [⟨['L'], 6⟩] = some t ∧ parseProtocolList t = some [⟨['L'], 6⟩] := by
  have hlegal : LegalName ['L'] := ⟨by decide, by decide, by decide⟩
  have hparse : parseProtocolList ['L', '=', '1', '-', '2'] = some [⟨['L'], 6⟩] := by
    decide +kernel
  exact ⟨(protocol_list_round_trip _ (.inl (by simp [hlegal]))).mpr (by decide),
    (protocol_list_round_trip _ (.inr ⟨_, hparse⟩)).mpr (by decide)⟩

/-- A list and a string with all 64 versions make the encoder count the zeros of 0. -/
theorem all_versions_not_encoded : encodeProtocolList [⟨['L'], BitVec.allOnes 64⟩] = none ∧
      (parseProtocolList ['L', '=', '0', '-', '6', '3']).bind encodeProtocolList = none ∧
      parseProtocolList ['L', '=', '0', '-', '6', '3'] = some [⟨['L'], BitVec.allOnes 64⟩] := by
  decide +kernel

end Lists

end TorDaemon.Protover
