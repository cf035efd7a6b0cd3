import TorDaemon.Encoding.HexAndBase32

/-! Base64, on one line or on several: what is encoded is decoded. -/
namespace TorDaemon.Encoding
open Library.FixedBuffer Library.NetworkOrder
open Keypin (Encoder encodeN encodePad base64EncodeTable base64DecodeTable sextets pads)
open SharedRandom (ascii hexDecodeDigit)

section Lines
variable {destlen : ℕ} {multiline : Bool} {d : Line} {chars more : Bytes}

section
variable (multiline : Bool)

/-- One more character, where there is room for it. -/
def Line.push (d : Line) (ch : UInt8) : Line :=
  if multiline then
    if (d.linelen + 1) % linelenMax = 0 then ⟨0, d.written ++ [ch] ++ [10]⟩
    else ⟨d.linelen + 1, d.written ++ [ch]⟩
  else ⟨d.linelen, d.written ++ [ch]⟩

/-- The characters, with the lines that are full ended. -/
def layOut (chars : Bytes) : Line := chars.foldl (Line.push multiline) ⟨0, []⟩

theorem length_push (d : Line) (ch : UInt8) :
    d.written.length < (d.push multiline ch).written.length := by
  unfold Line.push
  split_ifs <;> simp only [List.length_append, List.length_singleton] <;> omega

theorem length_le_foldl_push (d : Line) (chars : Bytes) :
    d.written.length ≤ (chars.foldl (Line.push multiline) d).written.length := by
  induction chars generalizing d with
  | nil => exact Nat.le_refl _
  | cons ch chars ih => exact (length_push multiline d ch).le.trans (ih _)

end

theorem length_layOut_le {chars chars' : Bytes} (h : chars <+: chars') :
    (layOut multiline chars).written.length ≤ (layOut multiline chars').written.length := by
  obtain ⟨more, rfl⟩ := h
  rw [layOut, layOut, List.foldl_append]
  exact length_le_foldl_push ..

theorem encodeChar_eq {ch : UInt8} (h : (d.push multiline ch).written.length ≤ destlen) :
    encodeChar destlen multiline d ch = some (d.push multiline ch) := by
  have hlt := (length_push multiline d ch).trans_le h
  rw [encodeChar, put_eq hlt, Option.bind_some]
  unfold Line.push at h ⊢
  split_ifs at h ⊢ with hm hfull
  · have hroom : (d.written ++ [ch]).length < destlen := by
      simp only [List.length_append, List.length_singleton] at h ⊢
      omega
    rw [put_eq hroom]
    rfl
  · rfl
  · rfl

theorem encodeChars_eq (h : (chars.foldl (Line.push multiline) d).written.length ≤ destlen) :
    encodeChars destlen multiline d chars = some (chars.foldl (Line.push multiline) d) := by
  induction chars generalizing d with
  | nil => rfl
  | cons ch chars ih =>
    have hfirst := (length_le_foldl_push multiline (d.push multiline ch) chars).trans h
    rw [encodeChars, List.foldlM_cons, encodeChar_eq hfirst]
    exact ih h

theorem encodeChars_layOut (h : (layOut multiline (chars ++ more)).written.length ≤ destlen) :
    encodeChars destlen multiline (layOut multiline chars) more =
      some (layOut multiline (chars ++ more)) := by
  rw [layOut, List.foldl_append] at h
  rw [layOut, layOut, List.foldl_append, encodeChars_eq h]

theorem layOut_concat (multiline : Bool) (chars : Bytes) (ch : UInt8) :
    layOut multiline (chars ++ [ch]) = (layOut multiline chars).push multiline ch := by
  rw [layOut, List.foldl_append]
  rfl

theorem layOut_single (chars : Bytes) : layOut false chars = ⟨0, chars⟩ := by
  induction chars using List.reverseRecOn with
  | nil => rfl
  | append_singleton chars ch ih =>
    rw [layOut_concat, ih]
    rfl

/-- Where the line ends are, on several lines. -/
structure LaidOut (chars : Bytes) (d : Line) : Prop where
  linelen : d.linelen = chars.length % 64
  length : d.written.length = chars.length + chars.length / 64
  newline : ∀ i < d.written.length, d.written[i]? = some 10 ↔ i % 65 = 64
  chars : d.written.filter (· ≠ 10) = chars

theorem LaidOut.push (h : LaidOut chars d) {ch : UInt8} (hch : ch ≠ 10) :
    LaidOut (chars ++ [ch]) (d.push true ch) := by
  have hlinelen := h.linelen
  have hlength := h.length
  have hpush : d.push true ch = if (d.linelen + 1) % 64 = 0 then ⟨0, d.written ++ [ch] ++ [10]⟩
      else ⟨d.linelen + 1, d.written ++ [ch]⟩ := rfl
  have hnewline : ∀ i < (d.written ++ [ch]).length,
      (d.written ++ [ch])[i]? = some 10 ↔ i % 65 = 64 := by
    intro i hi
    rw [List.length_append, List.length_singleton] at hi
    rcases (by omega : i < d.written.length ∨ i = d.written.length) with hi | rfl
    · rw [List.getElem?_append_left hi]
      exact h.newline i hi
    · rw [List.getElem?_concat_length]
      simp only [Option.some.injEq, hch, false_iff]
      omega
  have hchars : (d.written ++ [ch]).filter (· ≠ 10) = chars ++ [ch] := by
    rw [List.filter_append, h.chars]
    simp [hch]
  rw [hpush]
  split_ifs with hfull
  · refine ⟨?_, ?_, ?_, ?_⟩
    · rw [List.length_append, List.length_singleton]
      dsimp only
      omega
    · simp only [List.length_append, List.length_singleton]
      omega
    · intro i hi
      rw [List.length_append, List.length_singleton] at hi
      rcases (by omega : i < (d.written ++ [ch]).length ∨ i = (d.written ++ [ch]).length) with hi | rfl
      · rw [List.getElem?_append_left hi]
        exact hnewline i hi
      · rw [List.getElem?_concat_length]
        simp only [List.length_append, List.length_singleton, true_iff]
        omega
    · dsimp only
      rw [List.filter_append, hchars]
      simp
  · refine ⟨?_, ?_, hnewline, hchars⟩
    · rw [List.length_append, List.length_singleton]
      dsimp only
      omega
    · simp only [List.length_append, List.length_singleton]
      omega

theorem layOut_laidOut (h : ∀ ch ∈ chars, ch ≠ 10) : LaidOut chars (layOut true chars) := by
  induction chars using List.reverseRecOn with
  | nil => exact ⟨rfl, rfl, fun i hi => absurd hi (Nat.not_lt_zero i), rfl⟩
  | append_singleton chars ch ih =>
    rw [layOut_concat]
    apply (ih fun ch hch => h ch (List.mem_append_left _ hch)).push
    exact h ch (List.mem_append_right _ (List.mem_singleton_self ch))

end Lines

section Encoder
variable {destlen : ℕ} {multiline : Bool} {src : Bytes} {enclen : ℕ}

/-- The loop in its buffer, for what it would write on one line. -/
def laidOut (multiline : Bool) (st : Encoder) : EncodeState :=
  ⟨st.n, st.nIdx, layOut multiline st.dest⟩

theorem next_dest (st : Encoder) (b : UInt8) : st.dest <+: (st.next b).dest := by
  unfold Encoder.next
  split_ifs
  · exact List.prefix_append ..
  · exact List.prefix_refl _

theorem foldl_next_dest (st : Encoder) (src : Bytes) :
    st.dest <+: (src.foldl Encoder.next st).dest := by
  induction src generalizing st with
  | nil => exact List.prefix_refl _
  | cons b src ih => exact (next_dest st b).trans (ih _)

theorem finish_dest (st : Encoder) : st.dest <+: st.finish := by
  unfold Encoder.finish
  split_ifs
  · exact List.prefix_append ..
  · exact List.prefix_append ..
  · exact List.prefix_refl _

theorem encodeByte_eq {st : Encoder} {b : UInt8}
    (h : (layOut multiline (st.next b).dest).written.length ≤ destlen) :
    encodeByte destlen multiline (laidOut multiline st) b = some (laidOut multiline (st.next b)) := by
  by_cases hfull : st.nIdx + 1 = 3
  · have hnext : st.next b = ⟨0, 0, st.dest ++ [encodeN (st.n <<< 8 ||| b.toNat) 0,
        encodeN (st.n <<< 8 ||| b.toNat) 1, encodeN (st.n <<< 8 ||| b.toNat) 2,
        encodeN (st.n <<< 8 ||| b.toNat) 3]⟩ := if_pos hfull
    rw [hnext] at h ⊢
    refine (if_pos hfull).trans ?_
    dsimp only [laidOut]
    rw [encodeChars_layOut h, Option.map_some]
  · have hnext : st.next b = ⟨st.n <<< 8 ||| b.toNat, st.nIdx + 1, st.dest⟩ := if_neg hfull
    rw [hnext]
    exact if_neg hfull

theorem encodeLoop_eq {st : Encoder}
    (h : (layOut multiline (src.foldl Encoder.next st).dest).written.length ≤ destlen) :
    src.foldlM (encodeByte destlen multiline) (laidOut multiline st) =
      some (laidOut multiline (src.foldl Encoder.next st)) := by
  induction src generalizing st with
  | nil => rfl
  | cons b src ih =>
    have hfirst := (length_layOut_le (foldl_next_dest (st.next b) src)).trans h
    rw [List.foldlM_cons, encodeByte_eq hfirst]
    exact ih h

theorem encodeRest_eq {st : Encoder} (h : (layOut multiline st.finish).written.length ≤ destlen) :
    encodeRest destlen multiline (laidOut multiline st) = some (layOut multiline st.finish) := by
  by_cases hone : st.nIdx = 1
  · have hfinish : st.finish = st.dest ++ [encodeN (st.n <<< 4) 2, encodeN (st.n <<< 4) 3,
        encodePad, encodePad] := if_pos hone
    rw [hfinish] at h ⊢
    exact (if_pos hone).trans (encodeChars_layOut h)
  · by_cases htwo : st.nIdx = 2
    · have hfinish : st.finish = st.dest ++ [encodeN (st.n <<< 2) 1, encodeN (st.n <<< 2) 2,
          encodeN (st.n <<< 2) 3, encodePad] := (if_neg hone).trans (if_pos htwo)
      rw [hfinish] at h ⊢
      exact ((if_neg hone).trans (if_pos htwo)).trans (encodeChars_layOut h)
    · have hfinish : st.finish = st.dest := (if_neg hone).trans (if_neg htwo)
      rw [hfinish]
      exact (if_neg hone).trans (if_neg htwo)

/-- What is written for the bytes. -/
def base64Text (multiline : Bool) (src : Bytes) : Bytes :=
  let line := layOut multiline (Keypin.base64Encode src)
  if multiline ∧ line.linelen ≠ 0 then line.written ++ [10] else line.written

theorem base64Text_single (src : Bytes) : base64Text false src = Keypin.base64Encode src := by
  rw [base64Text, layOut_single]
  rfl

theorem length_base64Encode (src : Bytes) :
    (Keypin.base64Encode src).length = ceilDiv src.length 3 * 4 := by
  rw [Keypin.base64Encode_eq, List.length_append, List.length_map, Keypin.sextets_length,
    pads, List.length_replicate, ceilDiv]
  omega

theorem encodeTable_ne {v : ℕ} (hv : v < 64) :
    base64EncodeTable v ≠ 10 ∧ base64EncodeTable v ≠ 0 := by
  have hall : ∀ v : Fin 64, base64EncodeTable v ≠ 10 ∧ base64EncodeTable v ≠ 0 := by decide
  exact hall ⟨v, hv⟩

theorem base64Encode_ne {ch : UInt8} (h : ch ∈ Keypin.base64Encode src) : ch ≠ 10 ∧ ch ≠ 0 := by
  rw [Keypin.base64Encode_eq, List.mem_append] at h
  rcases h with h | h
  · obtain ⟨v, hv, rfl⟩ := List.mem_map.mp h
    exact encodeTable_ne (Keypin.sextets_lt src v hv)
  · rw [List.eq_of_mem_replicate h]
    decide

theorem layOut_base64Encode (src : Bytes) :
    LaidOut (Keypin.base64Encode src) (layOut true (Keypin.base64Encode src)) :=
  layOut_laidOut fun _ hch => (base64Encode_ne hch).1

theorem endLine_eq (h : (base64Text multiline src).length ≤ destlen) :
    endLine destlen multiline (layOut multiline (Keypin.base64Encode src)) =
      some (base64Text multiline src) := by
  unfold base64Text at h ⊢
  unfold endLine
  dsimp only at h ⊢
  split_ifs at h ⊢
  · rw [List.length_append, List.length_singleton] at h
    exact put_eq h _
  · rfl

theorem length_layOut_le_text (multiline : Bool) (src : Bytes) :
    (layOut multiline (Keypin.base64Encode src)).written.length ≤
      (base64Text multiline src).length := by
  unfold base64Text
  dsimp only
  split_ifs
  · rw [List.length_append]
    exact Nat.le_add_right ..
  · exact Nat.le_refl _

theorem length_base64Text (h : base64EncodeSize src.length multiline = some enclen) :
    (base64Text multiline src).length = enclen := by
  have hchars := length_base64Encode src
  unfold base64EncodeSize at h
  rw [Option.ite_none_right_eq_some] at h
  obtain ⟨-, h⟩ := h
  cases h
  cases multiline with
  | false => rw [base64Text_single, hchars, if_neg Bool.false_ne_true]
  | true =>
    have hline := layOut_base64Encode src
    have hlinelen := hline.linelen
    have hlength := hline.length
    rw [if_pos rfl, ← hchars, ceilDiv, linelenMax]
    unfold base64Text
    dsimp only
    split_ifs with hend
    · rw [List.length_append, List.length_singleton]
      omega
    · rw [not_and_or] at hend
      simp only [not_true_eq_false, ne_eq, not_not, false_or] at hend
      omega

/-- A line is 64 characters, and the last one may be shorter. -/
theorem base64Text_newline {i : ℕ} (hi : i < (base64Text multiline src).length) :
    (base64Text multiline src)[i]? = some 10 ↔
      multiline ∧ (i % 65 = 64 ∨ i + 1 = (base64Text multiline src).length) := by
  cases multiline with
  | false =>
    rw [base64Text_single] at hi ⊢
    have hne := (base64Encode_ne (List.getElem_mem hi)).1
    simp [hi, hne]
  | true =>
    have hline := layOut_base64Encode src
    have hlinelen := hline.linelen
    have hlength := hline.length
    unfold base64Text at hi ⊢
    dsimp only at hi ⊢
    split_ifs at hi ⊢ with hend
    · rw [List.length_append, List.length_singleton] at hi ⊢
      rcases (by omega : i < (layOut true (Keypin.base64Encode src)).written.length ∨
        i = (layOut true (Keypin.base64Encode src)).written.length) with hlt | rfl
      · rw [List.getElem?_append_left hlt, hline.newline i hlt, eq_self, true_and]
        omega
      · rw [List.getElem?_concat_length]
        simp
    · rw [not_and_or] at hend
      simp only [not_true_eq_false, ne_eq, not_not, false_or] at hend
      rw [hline.newline i hi, eq_self, true_and]
      omega

theorem base64EncodeSize_le (h : base64EncodeSize src.length multiline = some enclen) :
    enclen ≤ intMax := by
  unfold base64EncodeSize at h
  rw [Option.ite_none_right_eq_some] at h
  obtain ⟨⟨-, -, hlt, -⟩, heq⟩ := h
  cases heq
  exact hlt.le

theorem base64Encode_eq (hsize : base64EncodeSize src.length multiline = some enclen)
    (hroom : enclen + 1 ≤ destlen) (hdest : destlen ≤ sizeTCeiling) :
    base64Encode destlen src multiline =
      some (.ok enclen (contents destlen 0 (base64Text multiline src))) := by
  have htext := length_base64Text hsize
  have hfinish := length_layOut_le_text multiline src
  have hmax := base64EncodeSize_le hsize
  have hloop : src.foldlM (encodeByte destlen multiline) ⟨0, 0, ⟨0, []⟩⟩ =
      some (laidOut multiline (src.foldl Encoder.next ⟨0, 0, []⟩)) :=
    encodeLoop_eq ((length_layOut_le (finish_dest _)).trans (hfinish.trans (by omega)))
  have hrest : encodeRest destlen multiline (laidOut multiline (src.foldl Encoder.next ⟨0, 0, []⟩)) =
      some (layOut multiline (Keypin.base64Encode src)) :=
    encodeRest_eq (hfinish.trans (by omega))
  have hend : endLine destlen multiline (layOut multiline (Keypin.base64Encode src)) =
      some (base64Text multiline src) := endLine_eq (by omega)
  rw [base64Encode, hsize, Option.bind_eq_bind, Option.bind_some, if_neg (by omega), hloop,
    Option.bind_eq_bind, Option.bind_some, Option.bind_eq_bind, hrest, Option.bind_some,
    Option.bind_eq_bind, hend, Option.bind_some, if_pos htext, put_eq (by omega), Option.bind_some,
    contents_concat_fill _ (by omega)]
  rfl

/-- `base64_encode_nopad` leaves the characters before a NUL. -/
theorem base64EncodeNopad_eq (hsize : base64EncodeSize src.length false = some enclen)
    (hroom : enclen + 1 ≤ destlen) (hdest : destlen ≤ sizeTCeiling) :
    ∃ rest, base64EncodeNopad destlen src = some (.ok (Keypin.base64EncodeNopad src).length
      (Keypin.base64EncodeNopad src ++ 0 :: rest)) := by
  have hlength : (Keypin.base64Encode src).length = enclen := by
    rw [← base64Text_single]
    exact length_base64Text hsize
  obtain ⟨spare, hspare⟩ : ∃ spare, destlen - enclen = spare + 1 := ⟨destlen - enclen - 1, by omega⟩
  have hcontents : contents destlen 0 (Keypin.base64Encode src) =
      Keypin.base64Encode src ++ 0 :: List.replicate spare 0 := by
    rw [contents, hlength, hspare, List.replicate_succ]
  have htake : (Keypin.base64Encode src ++ 0 :: List.replicate spare 0).takeWhile (· ≠ 0) =
      Keypin.base64Encode src := by
    rw [List.takeWhile_append_of_pos fun ch hch => decide_eq_true (base64Encode_ne hch).2, List.takeWhile_cons_of_neg (by simp),
      List.append_nil]
  rw [base64EncodeNopad, base64Encode_eq hsize hroom hdest, base64Text_single, hcontents]
  rcases Nat.eq_zero_or_pos enclen with rfl | hpos
  · obtain hnil := List.eq_nil_of_length_eq_zero hlength
    have hnopad : Keypin.base64EncodeNopad src = [] := by rw [Keypin.base64EncodeNopad, hnil]; rfl
    rw [hnil, hnopad]
    exact ⟨List.replicate spare 0, rfl⟩
  · have hmax : enclen ≤ intMax := base64EncodeSize_le hsize
    have hnopad : (Keypin.base64EncodeNopad src).length ≤ enclen := by
      rw [← hlength]
      exact List.length_filter_le ..
    have hnul : (Keypin.base64Encode src ++ 0 :: List.replicate spare 0)[(enclen : ℤ).toNat]? =
        some 0 := by
      rw [Int.toNat_natCast, ← hlength, List.getElem?_append_right (Nat.le_refl _), Nat.sub_self]
      rfl
    have hout : ((Keypin.base64Encode src ++ 0 :: List.replicate spare 0).takeWhile (· ≠ 0)).filter
        (fun c => !(c == encodePad || c == 10)) = Keypin.base64EncodeNopad src := by
      rw [htake]
      rfl
    rw [Option.bind_eq_bind, Option.bind_some]
    dsimp only
    rw [if_neg (by omega), if_pos ⟨by omega, hnul⟩, hout, if_pos (by omega)]
    exact ⟨_, rfl⟩

end Encoder

section Decoder
variable {destlen n nIdx : ℕ} {src dest : Bytes}

/-- The loop keeps to its buffer, and does in it what it does on a list. -/
theorem base64DecodeLoop_eq (n nIdx : ℕ) (src : Bytes) (h : dest.length ≤ destlen) :
    base64DecodeLoop destlen src n nIdx dest =
        some (Keypin.base64DecodeLoop destlen src n nIdx dest) ∧
      ∀ res ∈ Keypin.base64DecodeLoop destlen src n nIdx dest, res.2.2.length ≤ destlen := by
  induction src generalizing n nIdx dest with
  | nil =>
    refine ⟨rfl, ?_⟩
    rintro res ⟨⟩
    exact h
  | cons c src ih =>
    rw [base64DecodeLoop, Keypin.base64DecodeLoop]
    cases base64DecodeTable c with
    | invalid => exact ⟨rfl, by rintro res ⟨⟩⟩
    | space => exact ih n nIdx h
    | pad =>
      refine ⟨rfl, ?_⟩
      rintro res ⟨⟩
      exact h
    | value v =>
      dsimp only
      split_ifs with hfull hroom
      · exact ⟨rfl, by rintro res ⟨⟩⟩
      · rw [putAll_eq (by simp only [List.length_cons, List.length_nil]; omega), Option.bind_some]
        apply ih
        simp only [List.length_append, List.length_cons, List.length_nil]
        omega
      · exact ih _ _ h

theorem base64DecodeRest_eq (n nIdx : ℕ) (h : dest.length ≤ destlen) :
    base64DecodeRest destlen n nIdx dest = some (Keypin.base64DecodeFinish destlen n nIdx dest) ∧
      ∀ dest' ∈ Keypin.base64DecodeFinish destlen n nIdx dest, dest'.length ≤ destlen := by
  unfold base64DecodeRest Keypin.base64DecodeFinish
  split_ifs with hone htwo hroom hthree hroom
  · exact ⟨rfl, by rintro res ⟨⟩⟩
  · exact ⟨rfl, by rintro res ⟨⟩⟩
  · refine ⟨by rw [put_eq (by omega), Option.map_some], ?_⟩
    rintro dest' ⟨⟩
    simp only [List.length_append, List.length_cons, List.length_nil]
    omega
  · exact ⟨rfl, by rintro res ⟨⟩⟩
  · have hall : dest.length + [UInt8.ofNat (n >>> 10), UInt8.ofNat (n >>> 2)].length ≤ destlen := by
      simp only [List.length_cons, List.length_nil]
      omega
    refine ⟨by rw [putAll_eq hall, Option.map_some], ?_⟩
    rintro dest' ⟨⟩
    simp only [List.length_append, List.length_cons, List.length_nil]
    omega
  · refine ⟨rfl, ?_⟩
    rintro dest' ⟨⟩
    exact h

/-- What is returned for a list of bytes that were decoded. -/
def decoded (destlen : ℕ) : Option Bytes → Returned
  | none => .error
  | some dest => .ok dest.length (contents destlen 0 dest)

/-- `base64_decode` never writes outside of its buffer. -/
theorem base64Decode_eq (hdest : destlen ≤ intMax) :
    base64Decode destlen src = some (decoded destlen (Keypin.base64Decode destlen src)) := by
  have hstart : ([] : Bytes).length ≤ destlen := Nat.zero_le destlen
  obtain ⟨hloop, hlength⟩ := base64DecodeLoop_eq 0 0 src hstart
  rw [base64Decode, if_neg (by omega), hloop, Keypin.base64Decode]
  cases hres : Keypin.base64DecodeLoop destlen src 0 0 [] with
  | none => rfl
  | some res =>
    obtain ⟨n, nIdx, dest⟩ := res
    obtain ⟨hrest, hlength⟩ := base64DecodeRest_eq n nIdx (hlength _ hres)
    simp only [Option.bind_eq_bind, Option.bind_some, hrest]
    cases hfinish : Keypin.base64DecodeFinish destlen n nIdx dest with
    | none => rfl
    | some dest' =>
      dsimp only
      rw [if_pos (hlength dest' hfinish)]
      rfl

theorem decodeLoop_filter (src : Bytes) (n nIdx : ℕ) (dest : Bytes) :
    Keypin.base64DecodeLoop destlen (src.filter (· ≠ 10)) n nIdx dest =
      Keypin.base64DecodeLoop destlen src n nIdx dest := by
  induction src generalizing n nIdx dest with
  | nil => rfl
  | cons c src ih =>
    by_cases hc : c = 10
    · subst hc
      have hspace : base64DecodeTable 10 = .space := by decide
      rw [List.filter_cons_of_neg (by simp), ih, Keypin.base64DecodeLoop, hspace]
    · rw [List.filter_cons_of_pos (by simpa using hc), Keypin.base64DecodeLoop,
        Keypin.base64DecodeLoop]
      cases base64DecodeTable c with
      | invalid => rfl
      | space => exact ih ..
      | pad => rfl
      | value v =>
        split_ifs
        · rfl
        · exact ih ..
        · exact ih ..

/-- Without its line ends the text is that on one line. -/
theorem filter_base64Text (multiline : Bool) (src : Bytes) :
    (base64Text multiline src).filter (· ≠ 10) = Keypin.base64Encode src := by
  cases multiline with
  | false =>
    rw [base64Text_single]
    apply List.filter_eq_self.mpr
    intro ch hch
    exact decide_eq_true (base64Encode_ne hch).1
  | true =>
    have hchars := (layOut_base64Encode src).chars
    unfold base64Text
    dsimp only
    split_ifs
    · rw [List.filter_append, hchars]
      simp
    · exact hchars

theorem base64Decode_lines {text : Bytes} (htext : text.filter (· ≠ 10) = Keypin.base64Encode src)
    (hroom : src.length ≤ destlen) (hdest : destlen ≤ intMax) :
    base64Decode destlen text = some (.ok src.length (contents destlen 0 src)) := by
  have hdecode : Keypin.base64Decode destlen text = some src := by
    rw [Keypin.base64Decode, ← decodeLoop_filter, htext, Keypin.base64Encode_eq]
    exact Keypin.base64Decode_encode hroom (List.prefix_refl _)
  rw [base64Decode_eq hdest, hdecode]
  rfl

/-- A character that is not allowed is found, unless there is padding before it. -/
theorem decodeLoop_illegal {c : UInt8} {before after : Bytes}
    (hbefore : ∀ x ∈ before, base64DecodeTable x ≠ .pad) (hc : base64DecodeTable c = .invalid) :
    Keypin.base64DecodeLoop destlen (before ++ c :: after) n nIdx dest = none := by
  induction before generalizing n nIdx dest with
  | nil => rw [List.nil_append, Keypin.base64DecodeLoop, hc]
  | cons x before ih =>
    have hx := hbefore x (List.mem_cons_self ..)
    have hrest : ∀ y ∈ before, base64DecodeTable y ≠ .pad :=
      fun y hy => hbefore y (List.mem_cons_of_mem x hy)
    rw [List.cons_append, Keypin.base64DecodeLoop]
    cases htable : base64DecodeTable x with
    | invalid => rfl
    | space => exact ih hrest
    | pad => exact absurd htable hx
    | value v =>
      split_ifs
      · rfl
      · exact ih hrest
      · exact ih hrest

theorem base64Decode_illegal {c : UInt8} {before after : Bytes}
    (hbefore : ∀ x ∈ before, base64DecodeTable x ≠ .pad) (hc : base64DecodeTable c = .invalid) :
    base64Decode destlen (before ++ c :: after) = some .error := by
  by_cases hdest : destlen ≤ intMax
  · rw [base64Decode_eq hdest, Keypin.base64Decode, decodeLoop_illegal hbefore hc]
    rfl
  · rw [base64Decode, if_pos (by omega)]

end Decoder

/-! What the encodings promise: round trips, bounds, and which characters are refused. -/

section Alphabets

def hexAlphabet : Bytes := ascii "0123456789ABCDEFabcdef"

def base32Alphabet : Bytes := ascii "ABCDEFGHIJKLMNOPQRSTUVWXYZabcdefghijklmnopqrstuvwxyz234567"

def base64Alphabet : Bytes :=
  ascii "ABCDEFGHIJKLMNOPQRSTUVWXYZabcdefghijklmnopqrstuvwxyz0123456789+/"

def base64Padding : UInt8 := 61

/-- The alphabet, with whitespace and padding. -/
def base64Allowed : Bytes := base64Padding :: 9 :: 10 :: 11 :: 13 :: 32 :: base64Alphabet

-- The proofs search the alphabet only for the characters that have a value.
theorem hexDecodeDigit_eq_none {c : UInt8} (h : c ∉ hexAlphabet) : hexDecodeDigit c = none := by
  have hall : ∀ c, hexDecodeDigit c ≠ none → c ∈ hexAlphabet := by decide +kernel
  by_contra hne
  exact h (hall c hne)

theorem base32Value_eq_none {c : UInt8} (h : c ∉ base32Alphabet) : base32Value c = none := by
  have hall : ∀ c, base32Value c ≠ none → c ∈ base32Alphabet := by decide +kernel
  by_contra hne
  exact h (hall c hne)

theorem base64DecodeTable_invalid {c : UInt8} (h : c ∉ base64Allowed) :
    base64DecodeTable c = .invalid := by
  have hall : ∀ c, base64DecodeTable c ≠ .invalid → c ∈ base64Allowed := by decide +kernel
  by_contra hne
  exact h (hall c hne)

theorem base64DecodeTable_pad {c : UInt8} (h : base64DecodeTable c = .pad) : c = base64Padding := by
  revert c
  decide +kernel

end Alphabets

section Promises

/-- What is encoded into a buffer that is large enough is decoded into one that is. -/
structure RoundTrips (src : Bytes) : Prop where
  base16 : ∀ destlen, src.length < sizeTCeiling / 2 - 1 → src.length * 2 + 1 ≤ destlen →
    destlen < sizeTCeiling → ∃ text, text.length = src.length * 2 ∧
      base16Encode destlen src = some (contents destlen 0 text) ∧
      ∀ room, src.length ≤ room → room ≤ intMax →
        base16Decode room text = some (.ok src.length (contents room 0 src))
  base32 : ∀ destlen enclen, base32EncodedSize src.length = some enclen → enclen ≤ destlen →
    destlen < sizeTCeiling → ∃ text, text.length + 1 = enclen ∧
      base32Encode destlen src = some (contents destlen 0 text) ∧
      ∀ room, src.length ≤ room → room < sizeTCeiling →
        base32Decode room text = some (.ok src.length (contents room 0 src))
  base64 : ∀ multiline destlen enclen, base64EncodeSize src.length multiline = some enclen →
    enclen < destlen → destlen ≤ sizeTCeiling → ∃ text, text.length = enclen ∧
      base64Encode destlen src multiline = some (.ok enclen (contents destlen 0 text)) ∧
      (∀ i < text.length, text[i]? = some 10 ↔
        multiline ∧ (i % 65 = 64 ∨ i + 1 = text.length)) ∧
      ∀ room, src.length ≤ room → room ≤ intMax →
        base64Decode room text = some (.ok src.length (contents room 0 src))
  nopad : ∀ destlen enclen, base64EncodeSize src.length false = some enclen →
    enclen < destlen → destlen ≤ sizeTCeiling → ∃ text rest,
      base64EncodeNopad destlen src = some (.ok text.length (text ++ 0 :: rest)) ∧
      ∀ room, src.length ≤ room → room ≤ intMax →
        base64Decode room text = some (.ok src.length (contents room 0 src))

/-- Decoding reads and writes in bounds, and refuses what is not encoded text. -/
structure DecodesSafely (destlen : ℕ) (src : Bytes) : Prop where
  base16Refused : (∃ c ∈ src, c ∉ hexAlphabet) → base16Decode destlen src = some .error
  base32InBounds : src.length < sizeTCeiling / 5 → src.length * 5 / 8 ≤ destlen →
    destlen < sizeTCeiling → ∃ res, base32Decode destlen src = some res
  base32Refused : src.length < sizeTCeiling / 5 → src.length * 5 / 8 ≤ destlen →
    destlen < sizeTCeiling → (∃ c ∈ src, c ∉ base32Alphabet) →
    base32Decode destlen src = some .error
  base64InBounds : ∃ res, base64Decode destlen src = some res
  base64Refused : (∃ c ∈ src.takeWhile (· ≠ base64Padding), c ∉ base64Allowed) →
    base64Decode destlen src = some .error

variable {destlen : ℕ} {src : Bytes}

theorem roundTrips (src : Bytes) : RoundTrips src := by
  refine ⟨?_, ?_, ?_, ?_⟩
  · intro destlen hlen hroom hdest
    exact ⟨hexDigits src, length_hexDigits src, base16Encode_eq hlen hroom hdest,
      fun room => base16Decode_hexDigits⟩
  · intro destlen enclen hsize hroom hdest
    have henclen := base32EncodedSize_eq hsize
    refine ⟨base32Text src, ?_, base32Encode_eq hsize hroom hdest, ?_⟩
    · rw [length_base32Text, henclen.1]
    · intro room
      exact base32Decode_text (by omega)
  · intro multiline destlen enclen hsize hroom hdest
    exact ⟨base64Text multiline src, length_base64Text hsize, base64Encode_eq hsize hroom hdest,
      fun i => base64Text_newline,
      fun room => base64Decode_lines (filter_base64Text multiline src)⟩
  · intro destlen enclen hsize hroom hdest
    obtain ⟨rest, hrest⟩ := base64EncodeNopad_eq hsize hroom hdest
    refine ⟨Keypin.base64EncodeNopad src, rest, hrest, fun room hfits hmax => ?_⟩
    rw [base64Decode_eq hmax, Keypin.base64Decode_encodeNopad hfits]
    rfl

theorem base64Decode_inBounds : ∃ res, base64Decode destlen src = some res := by
  by_cases hdest : destlen ≤ intMax
  · exact ⟨_, base64Decode_eq hdest⟩
  · exact ⟨.error, if_pos (by omega)⟩

theorem base64Decode_refused (h : ∃ c ∈ src.takeWhile (· ≠ base64Padding), c ∉ base64Allowed) :
    base64Decode destlen src = some .error := by
  obtain ⟨c, hc, hillegal⟩ := h
  obtain ⟨before, after, hsplit⟩ := List.append_of_mem hc
  have hbefore : ∀ x ∈ before, base64DecodeTable x ≠ .pad := by
    intro x hx hpad
    have hmem : x ∈ src.takeWhile (· ≠ base64Padding) := by
      rw [hsplit]
      exact List.mem_append_left _ hx
    have hne := List.mem_takeWhile_imp hmem
    rw [decide_eq_true_eq] at hne
    exact hne (base64DecodeTable_pad hpad)
  have happend : src.takeWhile (· ≠ base64Padding) ++ src.dropWhile (· ≠ base64Padding) = src :=
    List.takeWhile_append_dropWhile
  rw [← happend, hsplit, List.append_assoc, List.cons_append]
  exact base64Decode_illegal hbefore (base64DecodeTable_invalid hillegal)

theorem decodesSafely (destlen : ℕ) (src : Bytes) : DecodesSafely destlen src := by
  refine ⟨?_, base32Decode_inBounds, ?_, base64Decode_inBounds, base64Decode_refused⟩
  · rintro ⟨c, hc, hillegal⟩
    exact base16Decode_illegal ⟨c, hc, hexDecodeDigit_eq_none hillegal⟩
  · rintro hlen hroom hdest ⟨c, hc, hillegal⟩
    rw [base32Decode, if_pos ⟨hlen, by omega, hdest⟩,
      mapM_eq_none ⟨c, hc, base32Value_eq_none hillegal⟩]

/-- Binary is the same after it was text, and what is no such text is refused, up to padding. -/
theorem encodings_roundTrip : (∀ src, RoundTrips src) ∧ ∀ destlen src, DecodesSafely destlen src :=
  ⟨roundTrips, decodesSafely⟩

/-- What comes after the padding is not looked at, and text of 2^31 characters is not written. -/
theorem afterPadding_notRefused :
    (¬ ∀ destlen src, (∃ c ∈ src, c ∉ base64Allowed) → base64Decode destlen src = some .error) ∧
      ∀ multiline destlen,
        base64Encode destlen (List.replicate (2 ^ 31 - 1) 0) multiline = none := by
  constructor
  · intro hrefused
    have hdecoded : base64Decode 4 (ascii "QQ==!") = some (.ok 1 [65, 0, 0, 0]) := by decide
    rw [hrefused 4 (ascii "QQ==!") ⟨33, by decide, by decide⟩] at hdecoded
    exact absurd hdecoded (by decide)
  · intro multiline destlen
    have hsize : base64EncodeSize (2 ^ 31 - 1) multiline = none := by cases multiline <;> decide
    rw [base64Encode, List.length_replicate, hsize]
    rfl

end Promises

end TorDaemon.Encoding
