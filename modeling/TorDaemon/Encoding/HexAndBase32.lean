import TorDaemon.Encoding.Binascii

/-! Base16 and base32: what is encoded is decoded, and decoding keeps to its buffers. -/
namespace TorDaemon.Encoding
open Library.NetworkOrder Library.FixedBuffer Keypin
open SharedRandom (ascii hexDigit hexDecodeDigit hexDecodeDigit_hexDigit)

section Hex
variable {destlen : ℕ} {src written : Bytes}

/-- The digits of the bytes. -/
def hexDigits (src : Bytes) : Bytes :=
  src.flatMap fun (b : UInt8) => [hexDigit (b >>> 4), hexDigit (b &&& 15)]

theorem length_hexDigits (src : Bytes) : (hexDigits src).length = src.length * 2 := by
  simp [hexDigits]

theorem base16EncodeLoop_eq (h : written.length + src.length * 2 ≤ destlen) :
    base16EncodeLoop destlen src written = some (written ++ hexDigits src) := by
  induction src generalizing written with
  | nil => simp [base16EncodeLoop, hexDigits]
  | cons b src ih =>
    rw [List.length_cons] at h
    have hroom : written.length + [hexDigit (b >>> 4), hexDigit (b &&& 15)].length ≤ destlen := by
      simp only [List.length_cons, List.length_nil]
      omega
    rw [base16EncodeLoop, putAll_eq hroom, Option.bind_some, ih]
    · simp [hexDigits]
    · simp only [List.length_append, List.length_cons, List.length_nil]
      omega

theorem base16DecodeLoop_eq (h : written.length + src.length ≤ destlen) :
    base16DecodeLoop destlen (hexDigits src) written = some (some (written ++ src)) := by
  induction src generalizing written with
  | nil => simp [base16DecodeLoop, hexDigits]
  | cons b src ih =>
    rw [List.length_cons] at h
    obtain ⟨v1, v2, h1, h2, hb⟩ := hexDecodeDigit_hexDigit b
    have hcons : hexDigits (b :: src) = hexDigit (b >>> 4) :: hexDigit (b &&& 15) :: hexDigits src :=
      rfl
    rw [hcons, base16DecodeLoop, h1, h2]
    dsimp only
    rw [put_eq (by omega), Option.bind_some, hb, ih]
    · simp
    · simp only [List.length_append, List.length_cons, List.length_nil]
      omega

theorem base16Encode_eq (hlen : src.length < sizeTCeiling / 2 - 1)
    (hroom : src.length * 2 + 1 ≤ destlen) (hdest : destlen < sizeTCeiling) :
    base16Encode destlen src = some (contents destlen 0 (hexDigits src)) := by
  have hlength := length_hexDigits src
  rw [base16Encode, if_pos ⟨hlen, hroom, hdest⟩,
    base16EncodeLoop_eq (by simp only [List.length_nil]; omega), List.nil_append]
  simp only [Option.bind_eq_bind, Option.bind_some,
    put_eq (show (hexDigits src).length < destlen by omega)]
  rw [contents_concat_fill _ (by omega)]
  rfl

theorem base16Decode_hexDigits (hroom : src.length ≤ destlen) (hdest : destlen ≤ intMax) :
    base16Decode destlen (hexDigits src) = some (.ok src.length (contents destlen 0 src)) := by
  have hlength := length_hexDigits src
  rw [base16Decode, if_neg (by omega), if_neg (by omega),
    base16DecodeLoop_eq (by simpa using hroom), List.nil_append]
  simp only [Option.bind_eq_bind, Option.bind_some, if_pos hroom]
  rfl

/-- A character that is no digit is found before anything is written out of bounds. -/
theorem base16DecodeLoop_illegal (heven : src.length % 2 = 0)
    (hroom : written.length + src.length / 2 ≤ destlen)
    (hillegal : ∃ c ∈ src, hexDecodeDigit c = none) :
    base16DecodeLoop destlen src written = some none := by
  induction src using List.twoStepInduction generalizing written with
  | nil => simp at hillegal
  | singleton => simp at heven
  | cons_cons a b src ih _ =>
    simp only [List.length_cons] at heven hroom
    rw [base16DecodeLoop]
    cases h1 : hexDecodeDigit a with
    | none => rfl
    | some v1 =>
      cases h2 : hexDecodeDigit b with
      | none => rfl
      | some v2 =>
        dsimp only
        rw [put_eq (by omega), Option.bind_some]
        apply ih (by omega)
        · simp only [List.length_append, List.length_cons, List.length_nil]
          omega
        · simpa [h1, h2] using hillegal

theorem base16Decode_illegal (hillegal : ∃ c ∈ src, hexDecodeDigit c = none) :
    base16Decode destlen src = some .error := by
  unfold base16Decode
  split_ifs with hodd hroom
  · rfl
  · rfl
  · rw [base16DecodeLoop_illegal (by omega) (by simp only [List.length_nil]; omega) hillegal]
    rfl

end Hex

section Base32
variable {destlen : ℕ} {src written : Bytes} {tmp : Bytes}

/-- The five bits that begin at the bit. -/
def fiveBits (src : Bytes) (bit : ℕ) : ℕ :=
  ((src.getD (bit / 8) 0).toNat * 256 + (src.getD (bit / 8 + 1) 0).toNat) / 2 ^ (11 - bit % 8) % 32

theorem fiveBits_lt (src : Bytes) (bit : ℕ) : fiveBits src bit < 32 := Nat.mod_lt _ (by decide)

/-- The character that five bits are written as. -/
def fiveBitsChar (src : Bytes) (i : ℕ) : UInt8 := base32Chars.getD (fiveBits src (5 * i)) 0

theorem base32Value_fiveBitsChar (src : Bytes) (i : ℕ) :
    base32Value (fiveBitsChar src i) = some (UInt8.ofNat (fiveBits src (5 * i))) := by
  have hall : ∀ v : Fin 32, base32Value (base32Chars.getD v.val 0) = some (UInt8.ofNat v.val) := by
    decide
  exact hall ⟨_, fiveBits_lt src (5 * i)⟩

theorem base32Char_eq {i : ℕ} (h : 5 * i / 8 < src.length) :
    base32Char src (5 * i) = some (fiveBitsChar src i) := by
  have hlo : nextByte src (5 * i / 8) = some (src.getD (5 * i / 8 + 1) 0) := by
    unfold nextByte
    split
    · rename_i hlt
      rw [List.getElem?_eq_getElem hlt, List.getD_eq_getElem?_getD, List.getElem?_eq_getElem hlt,
        Option.getD_some]
    · rename_i hge
      rw [List.getD_eq_getElem?_getD, List.getElem?_eq_none (by omega), Option.getD_none]
  have hhi : src[5 * i / 8]? = some (src.getD (5 * i / 8) 0) := by
    rw [List.getD_eq_getElem?_getD, List.getElem?_eq_getElem h, Option.getD_some]
  have hchar : base32Chars[fiveBits src (5 * i)]? = some (fiveBitsChar src i) := by
    have hlen : fiveBits src (5 * i) < base32Chars.length := fiveBits_lt src (5 * i)
    rw [fiveBitsChar, List.getD_eq_getElem?_getD, List.getElem?_eq_getElem hlen, Option.getD_some]
  rw [← hchar, base32Char, hhi, Option.bind_eq_bind, Option.bind_some, hlo, Option.bind_some]
  dsimp only
  rw [show 0x1F = 2 ^ 5 - 1 from rfl, Nat.and_two_pow_sub_one_eq_mod, Nat.shiftRight_eq_div_pow,
    Nat.shiftLeft_eq]
  rfl

theorem base32EncodeLoop_step {i : ℕ} (h : 5 * i / 8 < src.length) (hroom : written.length < destlen) :
    base32EncodeLoop destlen src written i = some (written ++ [fiveBitsChar src i]) := by
  rw [base32EncodeLoop, base32Char_eq h]
  exact put_eq hroom _

theorem base32EncodeLoop_eq {is : List ℕ} (h : ∀ i ∈ is, 5 * i / 8 < src.length)
    (hroom : written.length + is.length ≤ destlen) :
    is.foldlM (base32EncodeLoop destlen src) written = some (written ++ is.map (fiveBitsChar src)) := by
  induction is generalizing written with
  | nil => simp
  | cons i is ih =>
    rw [List.length_cons] at hroom
    rw [List.foldlM_cons, base32EncodeLoop_step (h i (List.mem_cons_self ..)) (by omega),
      Option.bind_eq_bind, Option.bind_some, ih (fun i' hi' => h i' (List.mem_cons_of_mem i hi'))
        (by rw [List.length_append, List.length_singleton]; omega)]
    simp

/-- What the bytes are encoded as. -/
def base32Text (src : Bytes) : Bytes :=
  (List.range (ceilDiv (src.length * 8) 5)).map (fiveBitsChar src)

theorem length_base32Text (src : Bytes) : (base32Text src).length = ceilDiv (src.length * 8) 5 := by
  simp [base32Text]

theorem base32EncodedSize_eq {size : ℕ} (h : base32EncodedSize src.length = some size) :
    ceilDiv (src.length * 8) 5 + 1 = size ∧ size < intMax := by
  unfold base32EncodedSize at h
  rw [Option.ite_none_right_eq_some] at h
  obtain ⟨⟨-, hmax, -⟩, heq⟩ := h
  cases heq
  exact ⟨rfl, hmax⟩

/-- `base32_encode` with room for the text and a NUL. -/
theorem base32Encode_eq {size : ℕ} (hsize : base32EncodedSize src.length = some size)
    (hroom : size ≤ destlen) (hdest : destlen < sizeTCeiling) :
    base32Encode destlen src = some (contents destlen 0 (base32Text src)) := by
  have hlength := length_base32Text src
  have henclen := (base32EncodedSize_eq hsize).1
  have hin : ∀ i ∈ List.range (ceilDiv (src.length * 8) 5), 5 * i / 8 < src.length := by
    intro i hi
    have hi := List.mem_range.mp hi
    simp only [ceilDiv] at hi
    omega
  have hloop : (List.range (ceilDiv (src.length * 8) 5)).foldlM (base32EncodeLoop destlen src) [] =
      some ([] ++ base32Text src) :=
    base32EncodeLoop_eq hin (by simp only [List.length_nil, List.length_range]; omega)
  rw [base32Encode, hsize, Option.bind_eq_bind, Option.bind_some, if_pos ⟨hroom, hdest⟩, hloop,
    List.nil_append, Option.bind_eq_bind, Option.bind_some, put_eq (by omega), Option.bind_some,
    contents_concat_fill _ (by omega)]
  rfl

/-- The values that the text is read as. -/
def base32Values (src : Bytes) : Bytes :=
  (List.range (ceilDiv (src.length * 8) 5)).map fun i => UInt8.ofNat (fiveBits src (5 * i))

theorem mapM_map_eq_some {α β γ : Type} {f : β → Option γ} {g : α → β} {h : α → γ} (l : List α)
    (hf : ∀ a, f (g a) = some (h a)) : (l.map g).mapM f = some (l.map h) := by
  induction l with
  | nil => rfl
  | cons a l ih => simp [List.mapM_cons, hf, ih]

theorem mapM_base32Text (src : Bytes) :
    (base32Text src).mapM base32Value = some (base32Values src) :=
  mapM_map_eq_some _ (base32Value_fiveBitsChar src)

theorem base32Values_getElem? {k : ℕ} (h : k < ceilDiv (src.length * 8) 5) :
    (base32Values src)[k]? = some (UInt8.ofNat (fiveBits src (5 * k))) := by
  simp [base32Values, h]

section Bytes
variable {a b c : ℕ}

theorem byte_of_two (hb : b < 32) :
    (UInt8.ofNat a <<< 3 + UInt8.ofNat b >>> 2).toNat = (a * 8 + b / 4) % 256 ∧
      (UInt8.ofNat a <<< 4 + UInt8.ofNat b >>> 1).toNat = (a * 16 + b / 2) % 256 ∧
      (UInt8.ofNat a <<< 5 + UInt8.ofNat b).toNat = (a * 32 + b) % 256 := by
  simp only [UInt8.toNat_add, UInt8.toNat_shiftLeft, UInt8.toNat_shiftRight, UInt8.toNat_ofNat',
    Nat.shiftLeft_eq, Nat.shiftRight_eq_div_pow, UInt8.reduceToNat, Nat.reduceMod, Nat.reducePow]
  omega

theorem byte_of_three (hc : c < 32) :
    (UInt8.ofNat a <<< 6 + UInt8.ofNat b <<< 1 + UInt8.ofNat c >>> 4).toNat =
        (a * 64 + b * 2 + c / 16) % 256 ∧
      (UInt8.ofNat a <<< 7 + UInt8.ofNat b <<< 2 + UInt8.ofNat c >>> 3).toNat =
        (a * 128 + b * 4 + c / 8) % 256 := by
  simp only [UInt8.toNat_add, UInt8.toNat_shiftLeft, UInt8.toNat_shiftRight, UInt8.toNat_ofNat',
    Nat.shiftLeft_eq, Nat.shiftRight_eq_div_pow, UInt8.reduceToNat, Nat.reduceMod, Nat.reducePow]
  omega

end Bytes

theorem fiveBits_group (src : Bytes) (q c : ℕ) :
    fiveBits src (5 * (8 * q + c)) = ((src.getD (5 * q + 5 * c / 8) 0).toNat * 256 +
      (src.getD (5 * q + 5 * c / 8 + 1) 0).toNat) / 2 ^ (11 - 5 * c % 8) % 32 := by
  have hdiv : 5 * (8 * q + c) / 8 = 5 * q + 5 * c / 8 := by omega
  have hmod : 5 * (8 * q + c) % 8 = 5 * c % 8 := by omega
  rw [fiveBits, hdiv, hmod]

/-- Each of the five cases puts the byte together again. -/
theorem base32Byte_values {j : ℕ} (hj : j < src.length) :
    base32Byte (base32Values src) (8 * j) = some (src.getD j 0) := by
  have hcount : ceilDiv (src.length * 8) 5 = (src.length * 8 + 4) / 5 := rfl
  obtain ⟨q, r, hr, rfl⟩ : ∃ q r, r < 5 ∧ j = 5 * q + r := ⟨j / 5, j % 5, by omega, by omega⟩
  have hdiv : 8 * (5 * q + r) / 5 = 8 * q + 8 * r / 5 := by omega
  have hmod : 8 * (5 * q + r) % 40 = 8 * r := by omega
  have hgroup := fiveBits_group src q
  have hbyte (k : ℕ) := (src.getD k 0).toNat_lt
  have h0 := hbyte (5 * q + r)
  have h1 := hbyte (5 * q + r + 1)
  rw [base32Byte, hdiv, hmod, base32Values_getElem? (by omega), base32Values_getElem? (by omega)]
  rcases (by omega : r = 0 ∨ r = 1 ∨ r = 2 ∨ r = 3 ∨ r = 4) with rfl | rfl | rfl | rfl | rfl
  · refine congrArg some (UInt8.toNat_inj.mp ?_)
    have ht0 := hgroup 0
    have ht1 := hgroup 1
    rw [(byte_of_two (fiveBits_lt ..)).1]
    simp only [Nat.reduceMul, Nat.reduceDiv, Nat.reduceMod, Nat.reduceSub, Nat.reducePow,
      Nat.add_zero] at ht0 ht1 h0 h1 ⊢
    omega
  · rw [base32Values_getElem? (by omega)]
    refine congrArg some (UInt8.toNat_inj.mp ?_)
    have ht0 := hgroup 1
    have ht1 := hgroup 2
    have ht2 := hgroup 3
    rw [(byte_of_three (fiveBits_lt ..)).1]
    simp only [Nat.reduceMul, Nat.reduceDiv, Nat.reduceMod, Nat.reduceSub, Nat.reducePow,
      Nat.add_zero, Nat.add_assoc, Nat.reduceAdd] at ht0 ht1 ht2 h0 h1 ⊢
    omega
  · refine congrArg some (UInt8.toNat_inj.mp ?_)
    have ht0 := hgroup 3
    have ht1 := hgroup 4
    rw [(byte_of_two (fiveBits_lt ..)).2.1]
    simp only [Nat.reduceMul, Nat.reduceDiv, Nat.reduceMod, Nat.reduceSub, Nat.reducePow,
      Nat.add_assoc, Nat.reduceAdd] at ht0 ht1 h0 h1 ⊢
    omega
  · rw [base32Values_getElem? (by omega)]
    refine congrArg some (UInt8.toNat_inj.mp ?_)
    have ht0 := hgroup 4
    have ht1 := hgroup 5
    have ht2 := hgroup 6
    rw [(byte_of_three (fiveBits_lt ..)).2]
    simp only [Nat.reduceMul, Nat.reduceDiv, Nat.reduceMod, Nat.reduceSub, Nat.reducePow,
      Nat.add_assoc, Nat.reduceAdd] at ht0 ht1 ht2 h0 h1 ⊢
    omega
  · refine congrArg some (UInt8.toNat_inj.mp ?_)
    have ht0 := hgroup 6
    have ht1 := hgroup 7
    rw [(byte_of_two (fiveBits_lt ..)).2.2]
    simp only [Nat.reduceMul, Nat.reduceDiv, Nat.reduceMod, Nat.reduceSub, Nat.reducePow,
      Nat.add_assoc, Nat.reduceAdd] at ht0 ht1 h0 h1 ⊢
    omega

theorem base32DecodeLoop_step {dest : Bytes} {i : ℕ} {b : UInt8}
    (hbyte : base32Byte tmp (8 * i) = some b) (hi : i < dest.length) (hwrap : i < 2 ^ 32) :
    base32DecodeLoop tmp dest i = some (dest.set i b) := by
  rw [base32DecodeLoop, hbyte, Nat.mod_eq_of_lt hwrap, Option.bind_eq_bind, Option.bind_some,
    if_pos hi]
  rfl

/-- The bytes are put one after the other, as long as the index does not wrap. -/
theorem base32DecodeLoop_eq {g : ℕ → UInt8} {n : ℕ}
    (hbyte : ∀ i < n, base32Byte tmp (8 * i) = some (g i)) (hroom : n ≤ destlen) (hwrap : n ≤ 2 ^ 32) :
    (List.range n).foldlM (base32DecodeLoop tmp) (List.replicate destlen 0) =
      some (contents destlen 0 ((List.range n).map g)) := by
  induction n with
  | zero => simp [contents]
  | succ n ih =>
    have hlength : ((List.range n).map g).length = n := by simp
    have hset := contents_set 0 (g n) (show ((List.range n).map g).length < destlen by omega)
    rw [hlength] at hset
    have hstep := base32DecodeLoop_step (hbyte n (by omega))
      (show n < (contents destlen 0 ((List.range n).map g)).length by
        rw [length_contents 0 (by omega)]
        omega) (by omega)
    rw [List.range_succ, List.foldlM_append, ih (fun i hi => hbyte i (by omega)) (by omega)
      (by omega), Option.bind_eq_bind, Option.bind_some, List.foldlM_cons, hstep, hset,
      List.map_append]
    rfl

theorem base32Decode_text (hlen : ceilDiv (src.length * 8) 5 < intMax) (hroom : src.length ≤ destlen)
    (hdest : destlen < sizeTCeiling) :
    base32Decode destlen (base32Text src) = some (.ok src.length (contents destlen 0 src)) := by
  have hmax : intMax = 2 ^ 31 - 1 := rfl
  have hceil : sizeTCeiling / 5 = 1844674407370955158 := by decide
  have hcount : (base32Text src).length = (src.length * 8 + 4) / 5 := length_base32Text src
  have hbytes : (base32Text src).length * 5 / 8 * 8 / 8 = src.length := by omega
  have hall : (List.range src.length).map (fun i => src.getD i 0) = src := by
    apply List.ext_getElem (by simp)
    intro i hi hi'
    simp [hi']
  rw [hmax, ceilDiv] at hlen
  rw [base32Decode, if_pos ⟨by omega, by omega, hdest⟩, mapM_base32Text, hbytes]
  dsimp only
  rw [base32DecodeLoop_eq (fun i hi => base32Byte_values hi) hroom (by omega), hall,
    Int.bmod_eq_of_le (by omega) (by omega)]
  rfl

theorem base32Byte_isSome {i : ℕ} (h : i < tmp.length * 5 / 8) :
    ∃ b, base32Byte tmp (8 * i) = some b := by
  have hat : ∀ k < tmp.length, ∃ t, tmp[k]? = some t := fun k hk => ⟨_, List.getElem?_eq_getElem hk⟩
  obtain ⟨q, r, hr, rfl⟩ : ∃ q r, r < 5 ∧ i = 5 * q + r := ⟨i / 5, i % 5, by omega, by omega⟩
  have hdiv : 8 * (5 * q + r) / 5 = 8 * q + 8 * r / 5 := by omega
  have hmod : 8 * (5 * q + r) % 40 = 8 * r := by omega
  obtain ⟨t0, ht0⟩ := hat (8 * q + 8 * r / 5) (by omega)
  obtain ⟨t1, ht1⟩ := hat (8 * q + 8 * r / 5 + 1) (by omega)
  rw [base32Byte, hdiv, hmod, ht0, ht1]
  rcases (by omega : r = 0 ∨ r = 1 ∨ r = 2 ∨ r = 3 ∨ r = 4) with rfl | rfl | rfl | rfl | rfl
  · exact ⟨_, rfl⟩
  · obtain ⟨t2, ht2⟩ := hat (8 * q + 8 * 1 / 5 + 2) (by omega)
    rw [ht2]
    exact ⟨_, rfl⟩
  · exact ⟨_, rfl⟩
  · obtain ⟨t2, ht2⟩ := hat (8 * q + 8 * 3 / 5 + 2) (by omega)
    rw [ht2]
    exact ⟨_, rfl⟩
  · exact ⟨_, rfl⟩

theorem mapM_length {α β : Type} {f : α → Option β} {l : List α} {l' : List β}
    (h : l.mapM f = some l') : l'.length = l.length := by
  induction l generalizing l' with
  | nil =>
    cases h
    rfl
  | cons a l ih =>
    rw [List.mapM_cons, Option.bind_eq_bind, Option.bind_eq_some_iff] at h
    obtain ⟨b, -, hrest⟩ := h
    rw [Option.bind_eq_bind, Option.bind_eq_some_iff] at hrest
    obtain ⟨bs, hbs, hcons⟩ := hrest
    cases hcons
    rw [List.length_cons, List.length_cons, ih hbs]

theorem base32DecodeLoop_inBounds (dest : Bytes) (is : List ℕ)
    (hbyte : ∀ i ∈ is, i < tmp.length * 5 / 8) (hroom : ∀ i ∈ is, i < dest.length) :
    ∃ dest', is.foldlM (base32DecodeLoop tmp) dest = some dest' := by
  induction is generalizing dest with
  | nil => exact ⟨dest, rfl⟩
  | cons i is ih =>
    obtain ⟨b, hb⟩ := base32Byte_isSome (hbyte i (List.mem_cons_self ..))
    have hi : i % 2 ^ 32 < dest.length :=
      Nat.lt_of_le_of_lt (Nat.mod_le ..) (hroom i (List.mem_cons_self ..))
    have hstep : base32DecodeLoop tmp dest i = some (dest.set (i % 2 ^ 32) b) := by
      rw [base32DecodeLoop, hb, Option.bind_eq_bind, Option.bind_some, if_pos hi]
      rfl
    rw [List.foldlM_cons, hstep]
    apply ih
    · exact fun i hi => hbyte i (List.mem_cons_of_mem _ hi)
    · intro i hi
      rw [List.length_set]
      exact hroom i (List.mem_cons_of_mem _ hi)

/-- Whatever the source, nothing is read or written out of bounds. -/
theorem base32Decode_inBounds (hlen : src.length < sizeTCeiling / 5)
    (hroom : src.length * 5 / 8 ≤ destlen) (hdest : destlen < sizeTCeiling) :
    ∃ res, base32Decode destlen src = some res := by
  have hbytes : src.length * 5 / 8 * 8 / 8 = src.length * 5 / 8 := Nat.mul_div_cancel _ (by decide)
  rw [base32Decode, if_pos ⟨hlen, by omega, hdest⟩, hbytes]
  cases htmp : src.mapM base32Value with
  | none => exact ⟨_, rfl⟩
  | some tmp =>
    have hlength : tmp.length = src.length := mapM_length htmp
    obtain ⟨dest, hloop⟩ := base32DecodeLoop_inBounds (List.replicate destlen 0)
      (List.range (src.length * 5 / 8)) (fun i hi => by rw [hlength]; exact List.mem_range.mp hi)
      (fun i hi => by rw [List.length_replicate]; exact (List.mem_range.mp hi).trans_le hroom)
    dsimp only
    rw [hloop]
    exact ⟨_, rfl⟩

theorem mapM_eq_none {α β : Type} {f : α → Option β} {l : List α} (h : ∃ a ∈ l, f a = none) :
    l.mapM f = none := by
  obtain ⟨a, ha, hnone⟩ := h
  induction l with
  | nil => simp at ha
  | cons b l ih =>
    rw [List.mapM_cons]
    rcases List.mem_cons.mp ha with rfl | ha
    · rw [hnone]
      rfl
    · rw [ih ha]
      cases f b <;> rfl

end Base32

end TorDaemon.Encoding
