import TorDaemon.Net.Inaddr

/-! Which texts stand for IPv6 addresses, and how their numbers are scanned. -/
namespace TorDaemon.Net
open Library.NetworkOrder Library.Scanner Library.Separated
open SharedRandom (decimal hexDecodeDigit isDigit)

section Grammar

/-- One to four hex digits. -/
structure HexGroup (g : Bytes) (w : UInt16) : Prop where
  nonempty : g ≠ []
  short : g.length ≤ 4
  digits : ∀ c ∈ g, isXDigit c = true
  value : hexValue g = w.toNat

/-- One to three decimal digits, of a number up to 255; zeros may lead it. -/
structure DecimalByte (g : Bytes) (b : ℕ) : Prop where
  nonempty : g ≠ []
  short : g.length ≤ 3
  digits : ∀ c ∈ g, isDigit c = true
  value : decimal g = b
  byte : b ≤ 255

/-- Four numbers with dots between them. -/
inductive Quad : Bytes → ℕ → ℕ → ℕ → ℕ → Prop
  | dotted {ga gb gc gd : Bytes} {a b c d : ℕ} (ha : DecimalByte ga a) (hb : DecimalByte gb b)
      (hc : DecimalByte gc c) (hd : DecimalByte gd d) :
      Quad (ga ++ 46 :: (gb ++ 46 :: (gc ++ 46 :: gd))) a b c d

/-- The last group, or the two last words in the form of an IPv4 address. -/
inductive LastWords : Bytes → List UInt16 → Prop
  | group {g : Bytes} {w : UInt16} (hg : HexGroup g w) : LastWords g [w]
  | quad {q : Bytes} {a b c d : ℕ} (hq : Quad q a b c d) :
      LastWords q [UInt16.ofNat (a * 256 + b), UInt16.ofNat (c * 256 + d)]

inductive LastGroup : Bytes → List UInt16 → Prop
  | group {g : Bytes} {w : UInt16} (hg : HexGroup g w) : LastGroup g [w]

/-- Groups with colons between them. -/
abbrev Groups : Bytes → List UInt16 → Prop := Joined HexGroup 58 LastGroup

/-- So are they, with an IPv4 address at the end perhaps. -/
abbrev Words : Bytes → List UInt16 → Prop := Joined HexGroup 58 LastWords

/-- The text of an IPv6 address: eight words, or two colons for the zeros that are left out. -/
inductive Ipv6Text : Bytes → List UInt16 → Prop
  | full {s : Bytes} {ws : List UInt16} (hs : Words s ws) (hlen : ws.length = 8) : Ipv6Text s ws
  | compressed {l r : Bytes} {ls rs : List UInt16} (hl : l = [] ∧ ls = [] ∨ Groups l ls)
      (hr : r = [] ∧ rs = [] ∨ Words r rs) (hlen : ls.length + rs.length < 8) :
      Ipv6Text (l ++ 58 :: 58 :: r)
        (ls ++ List.replicate (8 - (ls.length + rs.length)) 0 ++ rs)

theorem Ipv6Text.length {s : Bytes} {ws : List UInt16} (h : Ipv6Text s ws) : ws.length = 8 := by
  cases h with
  | full hs hlen => exact hlen
  | compressed hl hr hlen =>
    simp only [List.length_append, List.length_replicate]
    omega

end Grammar

section Characters

theorem isXDigit_ne {c : UInt8} (h : isXDigit c = true) : c ≠ 58 ∧ c ≠ 46 := by
  constructor
  · rintro rfl
    exact absurd h (by decide)
  · rintro rfl
    exact absurd h (by decide)

theorem isDigit_ne {c : UInt8} (h : isDigit c = true) : c ≠ 58 ∧ c ≠ 46 := by
  constructor
  · rintro rfl
    exact absurd h (by decide)
  · rintro rfl
    exact absurd h (by decide)

theorem hexDecodeDigit_lt {c : UInt8} : ((hexDecodeDigit c).getD 0).toNat < 16 := by
  revert c
  decide +kernel

theorem hexValue_append (s : Bytes) (c : UInt8) :
    hexValue (s ++ [c]) = 16 * hexValue s + ((hexDecodeDigit c).getD 0).toNat := by
  rw [hexValue, List.foldl_append]
  rfl

theorem hexValue_lt (s : Bytes) : hexValue s < 16 ^ s.length := by
  induction s using List.reverseRecOn with
  | nil => decide
  | append_singleton s c ih =>
    have hc := @hexDecodeDigit_lt c
    rw [hexValue_append, List.length_append, List.length_singleton, Nat.pow_succ]
    omega

theorem hexValue_group {g : Bytes} (hlen : g.length ≤ 4) : hexValue g < 65536 :=
  (hexValue_lt g).trans_le (Nat.pow_le_pow_right (by decide) hlen)

end Characters

section Scan
variable {g buf rest : Bytes} {a b c d v : ℕ}

theorem scanUnsigned_digits (hne : g ≠ []) (hshort : g.length ≤ 3) (hdigits : ∀ c ∈ g, isDigit c = true)
    (hrest : ∀ c ∈ rest.head?, isDigit c = false) :
    scanUnsigned (g ++ rest) = some (decimal g, rest) := by
  have htake : ((g ++ rest).takeWhile isDigit).take 3 = g := by
    rw [(span_append hdigits hrest).1, List.take_of_length_le hshort]
  unfold scanUnsigned
  rw [htake, if_neg hne, List.drop_left]

theorem scanUnsigned_inv (h : scanUnsigned buf = some (v, rest)) :
    ∃ g, buf = g ++ rest ∧ g ≠ [] ∧ g.length ≤ 3 ∧ (∀ c ∈ g, isDigit c = true) ∧ decimal g = v := by
  unfold scanUnsigned at h
  rw [Option.ite_none_left_eq_some] at h
  obtain ⟨hne, h⟩ := h
  obtain ⟨hv, hrest⟩ := Prod.mk.inj (Option.some.inj h)
  have hprefix : (buf.takeWhile isDigit).take 3 <+: buf :=
    (List.take_prefix ..).trans (List.takeWhile_prefix _)
  refine ⟨(buf.takeWhile isDigit).take 3, ?_, hne, List.length_take_le .., ?_, hv⟩
  · rw [← hrest]
    exact (List.prefix_iff_eq_append.mp hprefix).symm
  · intro c hc
    exact List.mem_takeWhile_imp (List.mem_of_mem_take hc)

theorem scanDot_eq : scanDot buf = some rest ↔ buf = 46 :: rest := by
  constructor
  · intro h
    unfold scanDot at h
    split at h
    · rw [Option.some.inj h]
    · cases h
  · rintro rfl
    rfl

theorem DecimalByte.scan (h : DecimalByte g v) (hrest : ∀ c ∈ rest.head?, isDigit c = false) :
    scanUnsigned (g ++ rest) = some (v, rest) := by
  rw [scanUnsigned_digits h.nonempty h.short h.digits hrest, h.value]

theorem scanQuad_of_quad (h : Quad buf a b c d) : scanQuad buf = some (a, b, c, d) := by
  obtain ⟨ha, hb, hc, hd⟩ := h
  have hdot : ∀ rest : Bytes, ∀ x ∈ ((46 : UInt8) :: rest).head?, isDigit x = false := by
    rintro rest x ⟨⟩
    decide
  have hlast : scanUnsigned (_ ++ []) = some (d, []) := hd.scan (by simp)
  rw [List.append_nil] at hlast
  simp [scanQuad, ha.scan (hdot _), hb.scan (hdot _), hc.scan (hdot _), hlast, scanDot]

theorem quad_of_scanQuad (h : scanQuad buf = some (a, b, c, d)) (ha : a ≤ 255) (hb : b ≤ 255)
    (hc : c ≤ 255) (hd : d ≤ 255) : Quad buf a b c d := by
  simp only [scanQuad, Option.bind_eq_bind, Option.bind_eq_some_iff, Prod.exists,
    Option.ite_none_right_eq_some] at h
  obtain ⟨va, bufa, hsa, dota, hdota, vb, bufb, hsb, dotb, hdotb, vc, bufc, hsc, dotc, hdotc, vd,
    bufd, hsd, hend, heq⟩ := h
  obtain ⟨rfl, rfl, rfl, rfl⟩ : va = a ∧ vb = b ∧ vc = c ∧ vd = d := by simpa using heq
  obtain ⟨ga, rfl, hga⟩ := scanUnsigned_inv hsa
  obtain ⟨gb, rfl, hgb⟩ := scanUnsigned_inv hsb
  obtain ⟨gc, rfl, hgc⟩ := scanUnsigned_inv hsc
  obtain ⟨gd, rfl, hgd⟩ := scanUnsigned_inv hsd
  rw [scanDot_eq] at hdota hdotb hdotc
  rw [hend, List.append_nil] at hdotc
  rw [hdota, hdotb, hdotc]
  exact .dotted ⟨hga.1, hga.2.1, hga.2.2.1, hga.2.2.2, ha⟩
    ⟨hgb.1, hgb.2.1, hgb.2.2.1, hgb.2.2.2, hb⟩ ⟨hgc.1, hgc.2.1, hgc.2.2.1, hgc.2.2.2, hc⟩
    ⟨hgd.1, hgd.2.1, hgd.2.2.1, hgd.2.2.2, hd⟩

end Scan

/-! `tor_inet_pton` accepts the texts of IPv6 addresses, and no others. -/

section Group
variable {s g r t : Bytes} {c : UInt8} {st : WordsState}

theorem strtolHex_eq (h : ∀ x ∈ s[1]?, x ≠ 120 ∧ x ≠ 88) :
    strtolHex s = (min (hexValue (s.takeWhile isXDigit)) longMax, s.dropWhile isXDigit) := by
  unfold strtolHex
  split
  · rename_i x d rest
    have hx := h x rfl
    rw [if_neg (by rintro ⟨rfl | rfl, -⟩ <;> simp at hx)]
  · rfl

/-- Either the digits at the front are read, or there is a prefix of `0x`. -/
theorem strtolHex_cases (s : Bytes) :
    strtolHex s = (min (hexValue (s.takeWhile isXDigit)) longMax, s.dropWhile isXDigit) ∨
      ∃ x d rest, s = 48 :: x :: d :: rest ∧ isXDigit x = false ∧ x ≠ 58 ∧ isXDigit d = true ∧
        (strtolHex s).2 = rest.dropWhile isXDigit := by
  unfold strtolHex
  split
  · rename_i x d rest
    split_ifs with hx
    · refine .inr ⟨x, d, rest, rfl, ?_, ?_, hx.2, List.dropWhile_cons_of_pos hx.2⟩
      · rcases hx.1 with rfl | rfl <;> decide
      · rcases hx.1 with rfl | rfl <;> decide
    · exact .inl rfl
  · exact .inl rfl

theorem second_of_group (hne : g ≠ []) (hdigits : ∀ c ∈ g, isXDigit c = true)
    (hr : r = [] ∨ r.head? = some 58) : ∀ x ∈ (g ++ r)[1]?, x ≠ 120 ∧ x ≠ 88 := by
  have hdigit : ∀ x, isXDigit x = true → x ≠ 120 ∧ x ≠ 88 := by
    intro x hx
    constructor
    · rintro rfl
      exact absurd hx (by decide)
    · rintro rfl
      exact absurd hx (by decide)
  intro x hx
  match g, hne with
  | [a], _ =>
    rw [List.singleton_append, List.getElem?_cons_succ, ← List.head?_eq_getElem?] at hx
    rcases hr with rfl | hr
    · cases hx
    · rw [hr] at hx
      cases hx
      decide
  | a :: b :: g, _ =>
    obtain rfl : b = x := by simpa using hx
    exact hdigit b (hdigits b (by simp))

/-- The text of the words stops before a dotted quad, after a colon. -/
def Stops (s t : Bytes) : Prop := t = [] ∨ s = [] ∨ s.getLast? = some 58

theorem Stops.tail (h : Stops (g ++ 58 :: s) t) : Stops s t := by
  rcases h with h | h | h
  · exact .inl h
  · simp at h
  · cases s with
    | nil => exact .inr (.inl rfl)
    | cons c s =>
      rw [List.getLast?_append_cons, List.getLast?_cons_cons] at h
      exact .inr (.inr h)

theorem Stops.not_digits (h : Stops g t) (hne : g ≠ []) (hdigits : ∀ c ∈ g, isXDigit c = true) :
    t = [] := by
  rcases h with h | h | h
  · exact h
  · exact absurd h hne
  · exact absurd (hdigits 58 (List.mem_of_getLast? h)) (by decide)

theorem groupLen_append (g : Bytes) (h : t ≠ [] → r ≠ []) :
    groupLen t.length (g ++ (r ++ t)) (r ++ t) = g.length := by
  unfold groupLen
  split_ifs with hnil
  · obtain ⟨rfl, rfl⟩ := List.append_eq_nil_iff.mp hnil
    simp
  · simp

theorem readGroup_digits (st : WordsState) {w : UInt16} (hg : HexGroup g w)
    (hr : r = [] ∧ t = [] ∨ r.head? = some 58) (hsrc : st.src = g ++ (r ++ t)) :
    readGroup t.length st =
      .ok ⟨r.tail ++ t, st.i + 1, st.gapPos, st.setWords + 1, st.words.set st.i w⟩ := by
  have hnext : r ++ t = [] ∧ t = [] ∨ (r ++ t).head? = some 58 ∧ r ≠ [] := by
    rcases hr with ⟨rfl, rfl⟩ | hr
    · exact .inl ⟨rfl, rfl⟩
    · right
      cases r with
      | nil => cases hr
      | cons x r => exact ⟨hr, List.cons_ne_nil x r⟩
  have hstop : ∀ x ∈ (r ++ t).head?, isXDigit x = false := by
    intro x hx
    rcases hnext with ⟨h, -⟩ | ⟨h, -⟩
    · rw [h] at hx
      cases hx
    · rw [h] at hx
      cases hx
      decide
  have hspan := span_append hg.digits hstop
  have hvalue := hexValue_group hg.short
  have hmin : min (hexValue g) longMax = hexValue g := Nat.min_eq_left (hvalue.le.trans (by decide))
  have hstrtol : strtolHex st.src = (hexValue g, r ++ t) := by
    rw [hsrc, strtolHex_eq (second_of_group hg.nonempty hg.digits (hnext.imp And.left And.left)),
      hspan.1, hspan.2, hmin]
  have hlen : groupLen t.length st.src (r ++ t) = g.length := by
    rw [hsrc]
    apply groupLen_append
    rcases hnext with ⟨-, ht⟩ | ⟨-, hr⟩
    · exact fun hne => absurd ht hne
    · exact fun _ => hr
  have hpos := List.length_pos_iff.mpr hg.nonempty
  have hshort := hg.short
  have hsame : (r ++ t).length ≠ st.src.length := by
    have hlength : (g ++ (r ++ t)).length = g.length + (r ++ t).length := List.length_append
    rw [hsrc, hlength]
    omega
  have hsecond : ¬ (1 < g.length ∧ !((st.src[1]?).any isXDigit)) := by
    rintro ⟨hlt, hnot⟩
    rw [hsrc, List.getElem?_append_left hlt, List.getElem?_eq_getElem hlt, Option.any_some,
      hg.digits _ (List.getElem_mem hlt)] at hnot
    cases hnot
  have hend : ¬ ((r ++ t).head? ≠ some 58 ∧ (r ++ t).length ≠ t.length) := by
    rcases hnext with ⟨h, ht⟩ | ⟨h, -⟩
    · rw [h, ht]
      simp
    · rw [h]
      simp
  have htail : (r ++ t).tail = r.tail ++ t := by
    rcases hnext with ⟨h, ht⟩ | ⟨-, hne⟩
    · obtain ⟨rfl, -⟩ := List.append_eq_nil_iff.mp h
      rw [ht]
      rfl
    · exact List.tail_append_of_ne_nil hne
  have hword : UInt16.ofNat (hexValue g) = w := by
    rw [hg.value, UInt16.ofNat_toNat]
  unfold readGroup
  rw [hstrtol]
  dsimp only
  rw [hlen, if_neg hsame, if_neg (by omega), if_neg hsecond, if_neg (by omega), if_neg hend, htail,
    hword]

/-- More than four characters, or a second one that is no digit. -/
theorem readGroup_long {eow : ℕ} (h : 4 < groupLen eow st.src (strtolHex st.src).2 ∨
      1 < groupLen eow st.src (strtolHex st.src).2 ∧ ∀ x ∈ st.src[1]?, isXDigit x = false) :
    readGroup eow st = .error .badParse := by
  unfold readGroup
  dsimp only
  split_ifs with hsame hlong hsecond
  · rfl
  · rfl
  · rfl
  all_goals
    rcases h with h | ⟨hlt, hx⟩
    · exact absurd h hlong
    · refine absurd ⟨hlt, ?_⟩ hsecond
      cases hget : st.src[1]? with
      | none => rfl
      | some x => simp [hx x hget]

theorem readGroup_refused (hstops : Stops s t) (hsrc : st.src = s ++ t) (hne : s ≠ [])
    (hbad : (s.takeWhile isXDigit).length ≤ 4 →
      s.dropWhile isXDigit ≠ [] ∧ (s.dropWhile isXDigit).head? ≠ some 58) :
    readGroup t.length st = .error .badParse := by
  rcases strtolHex_cases st.src with hstrtol | ⟨x, d, rest, hzero, hx, hcolon, hd, hnext⟩
  · have hsplit := List.takeWhile_append_dropWhile (p := isXDigit) (l := s)
    have hdigits := mem_takeWhile_pos isXDigit s
    have hrest : t ≠ [] → s.dropWhile isXDigit ≠ [] := by
      intro ht hnil
      rw [hnil, List.append_nil] at hsplit
      exact ht (hstops.not_digits hne (by rw [← hsplit]; exact hdigits))
    have hstop : ∀ x ∈ (s.dropWhile isXDigit ++ t).head?, isXDigit x = false := by
      intro x hx
      by_cases hnil : s.dropWhile isXDigit = []
      · rw [hnil, List.nil_append] at hx
        have ht : t = [] := not_not.mp fun ht => hrest ht hnil
        rw [ht] at hx
        cases hx
      · rw [List.head?_append_of_ne_nil _ hnil] at hx
        exact head_dropWhile isXDigit s x hx
    have hsrc' : st.src = s.takeWhile isXDigit ++ (s.dropWhile isXDigit ++ t) := by
      rw [hsrc, ← List.append_assoc, hsplit]
    have hspan := span_append hdigits hstop
    rw [← hsrc'] at hspan
    rw [hspan.1, hspan.2] at hstrtol
    have hlen : groupLen t.length st.src (strtolHex st.src).2 = (s.takeWhile isXDigit).length := by
      rw [hstrtol, hsrc']
      exact groupLen_append _ hrest
    by_cases hlong : 4 < (s.takeWhile isXDigit).length
    · exact readGroup_long (.inl (by rw [hlen]; exact hlong))
    · obtain ⟨hnil, hhead⟩ := hbad (by omega)
      have hvalue := hexValue_group (g := s.takeWhile isXDigit) (by omega)
      have hend : (s.dropWhile isXDigit ++ t).head? ≠ some 58 ∧
          (s.dropWhile isXDigit ++ t).length ≠ t.length := by
        have hpos := List.length_pos_iff.mpr hnil
        refine ⟨by rwa [List.head?_append_of_ne_nil _ hnil], ?_⟩
        rw [List.length_append]
        omega
      unfold readGroup
      rw [hstrtol]
      dsimp only
      have hmin : ¬ 65536 ≤ min (hexValue (s.takeWhile isXDigit)) longMax := by omega
      split_ifs <;> rfl
  · have ht : rest.dropWhile isXDigit = [] → t = [] := by
      intro hnil
      have hdigits : ∀ c ∈ rest, isXDigit c = true := List.dropWhile_eq_nil_iff.mp hnil
      rcases hstops with ht | hs | hlast
      · exact ht
      · exact absurd hs hne
      · have hmem : (58 : UInt8) ∈ st.src := by
          rw [hsrc]
          exact List.mem_append_left _ (List.mem_of_getLast? hlast)
        rw [hzero] at hmem
        have hmem : (58 : UInt8) ∈ rest := by simpa [hcolon.symm, (isXDigit_ne hd).1.symm] using hmem
        exact absurd (hdigits 58 hmem) (by decide)
    have hle := List.length_dropWhile_le isXDigit rest
    have hlen : 1 < groupLen t.length st.src (strtolHex st.src).2 := by
      rw [hnext, hzero]
      unfold groupLen
      split_ifs with hnil
      · rw [ht hnil]
        simp
      · simp only [List.length_cons]
        omega
    refine readGroup_long (.inr ⟨hlen, ?_⟩)
    rw [hzero]
    rintro x ⟨⟩
    exact hx

end Group

section Loop
variable {i setWords : ℕ} {gap gap' : Option ℕ} {s t : Bytes} {ws words : List UInt16} {eow : ℕ}
  {st : WordsState} {c : UInt8}

/-- What the loop reads of the text of the words: the words, and the place of the gap. -/
inductive Reads : ℕ → Option ℕ → Bytes → List UInt16 → Option ℕ → Prop
  | done {i : ℕ} {gap : Option ℕ} : Reads i gap [] [] gap
  | last {i : ℕ} {gap : Option ℕ} {g : Bytes} {w : UInt16} (hi : i ≤ 7) (hg : HexGroup g w) :
      Reads i gap g [w] gap
  | group {i : ℕ} {gap gap' : Option ℕ} {g s : Bytes} {w : UInt16} {ws : List UInt16} (hi : i ≤ 7)
      (hg : HexGroup g w) (hs : Reads (i + 1) gap s ws gap') :
      Reads i gap (g ++ 58 :: s) (w :: ws) gap'
  | colon {i : ℕ} {gap' : Option ℕ} {s : Bytes} {ws : List UInt16} (hi : i ≤ 7) (hpos : 0 < i)
      (hs : Reads i (some i) s ws gap') : Reads i none (58 :: s) ws gap'
  | colons {gap' : Option ℕ} {s : Bytes} {ws : List UInt16} (hs : Reads 0 (some 0) s ws gap') :
      Reads 0 none (58 :: 58 :: s) ws gap'

/-- The words are set one after the other. -/
def setFrom (words : List UInt16) (i : ℕ) : List UInt16 → List UInt16
  | [] => words
  | w :: ws => setFrom (words.set i w) (i + 1) ws

theorem readWords_done (h : ¬ eow < st.src.length) : readWords eow st = .ok st := by
  rw [readWords, if_neg h]

theorem readWords_step {st' : WordsState} (h : eow < st.src.length)
    (hstep : readWord eow st = .ok st') : readWords eow st = readWords eow st' := by
  rw [readWords, if_pos h]
  split
  · rename_i stop hstop
    rw [hstep] at hstop
    cases hstop
  · rename_i st'' hst
    rw [hstep] at hst
    rw [Except.ok.inj hst]

theorem readWords_refused (h : eow < st.src.length)
    (hstep : readWord eow st = .error .badParse) : readWords eow st = .error .badParse := by
  rw [readWords, if_pos h]
  split
  · rename_i stop hstop
    rw [hstep] at hstop
    rw [Except.error.inj hstop]
  · rename_i st'' hst
    rw [hstep] at hst
    cases hst

theorem readWord_group (hi : st.i ≤ 7) (hc : st.src.head? = some c) (hdigit : isXDigit c = true) :
    readWord eow st = readGroup eow st := by
  unfold readWord
  rw [if_neg (by omega)]
  split
  · rename_i hnil
    rw [hnil] at hc
    cases hc
  · rename_i c' rest hcons
    rw [hcons] at hc
    cases hc
    rw [if_pos hdigit]

theorem readWord_colon (rest : Bytes) (hi : i ≤ 7) (hpos : 0 < i) :
    readWord eow ⟨58 :: rest, i, none, setWords, words⟩ = .ok ⟨rest, i, some i, setWords, words⟩ := by
  unfold readWord
  dsimp only
  rw [if_neg (Nat.not_lt.mpr hi), if_neg (by decide), if_pos ⟨rfl, hpos, rfl⟩]

theorem readWord_colons {rest : Bytes} (h : eow ≤ rest.length) :
    readWord eow ⟨58 :: 58 :: rest, 0, none, setWords, words⟩ =
      .ok ⟨rest, 0, some 0, setWords, words⟩ := by
  unfold readWord
  dsimp only
  rw [if_neg (by decide), if_neg (by decide),
    if_neg (by rintro ⟨-, hpos, -⟩; exact absurd hpos (by decide)),
    if_pos ⟨rfl, rfl, Nat.lt_succ_of_le h, rfl, rfl⟩, List.tail_cons]

theorem readWord_refused {rest : Bytes} (hdigit : isXDigit c = false)
    (hcolon : ¬ (c = 58 ∧ 0 < i ∧ gap = none))
    (hcolons : ¬ (c = 58 ∧ i = 0 ∧ eow < rest.length ∧ rest.head? = some 58 ∧ gap = none)) :
    readWord eow ⟨c :: rest, i, gap, setWords, words⟩ = .error .badParse := by
  unfold readWord
  dsimp only
  split_ifs with hi hd
  · rfl
  · rw [hdigit] at hd
    cases hd
  · rfl

theorem HexGroup.head? {g : Bytes} {w : UInt16} (hg : HexGroup g w) :
    ∃ c, isXDigit c = true ∧ ∀ rest, (g ++ rest).head? = some c := by
  cases g with
  | nil => exact absurd rfl hg.nonempty
  | cons c g => exact ⟨c, hg.digits c (List.mem_cons_self ..), fun rest => rfl⟩

theorem length_lt_append (hne : s ≠ []) : t.length < (s ++ t).length := by
  have hpos := List.length_pos_iff.mpr hne
  rw [List.length_append]
  omega

section Rounds
variable (setWords : ℕ) (words : List UInt16)

theorem readWords_group {g : Bytes} {w : UInt16} (gap : Option ℕ) (s t : Bytes) (hi : i ≤ 7)
    (hg : HexGroup g w) : readWords t.length ⟨g ++ 58 :: s ++ t, i, gap, setWords, words⟩ =
      readWords t.length ⟨s ++ t, i + 1, gap, setWords + 1, words.set i w⟩ := by
  obtain ⟨c, hc, hhead⟩ := hg.head?
  have hgroup : readGroup t.length ⟨g ++ (58 :: s ++ t), i, gap, setWords, words⟩ =
      .ok ⟨s ++ t, i + 1, gap, setWords + 1, words.set i w⟩ :=
    readGroup_digits (r := 58 :: s) _ hg (.inr rfl) rfl
  have hlt : t.length < (g ++ (58 :: s ++ t)).length := by
    simp only [List.length_append, List.length_cons]
    omega
  rw [List.append_assoc, readWords_step hlt ((readWord_group hi (hhead _) hc).trans hgroup)]

theorem readWords_colon (s t : Bytes) (hi : i ≤ 7) (hpos : 0 < i) :
    readWords t.length ⟨58 :: s ++ t, i, none, setWords, words⟩ =
      readWords t.length ⟨s ++ t, i, some i, setWords, words⟩ := by
  have hlt : t.length < (58 :: (s ++ t)).length := by
    simp only [List.length_append, List.length_cons]
    omega
  rw [List.cons_append, readWords_step hlt (readWord_colon _ hi hpos)]

theorem readWords_colons (s t : Bytes) :
    readWords t.length ⟨58 :: 58 :: s ++ t, 0, none, setWords, words⟩ =
      readWords t.length ⟨s ++ t, 0, some 0, setWords, words⟩ := by
  have hlt : t.length < (58 :: 58 :: (s ++ t)).length := by
    simp only [List.length_append, List.length_cons]
    omega
  have hroom : t.length ≤ (s ++ t).length := by
    rw [List.length_append]
    omega
  rw [List.cons_append, List.cons_append, readWords_step hlt (readWord_colons hroom)]

end Rounds

/-- What is read is what the loop leaves in its variables. -/
theorem reads_run (h : Reads i gap s ws gap') (hstops : Stops s t) (setWords : ℕ)
    (words : List UInt16) : readWords t.length ⟨s ++ t, i, gap, setWords, words⟩ =
      .ok ⟨t, i + ws.length, gap', setWords + ws.length, setFrom words i ws⟩ := by
  induction h generalizing setWords words with
  | done => exact readWords_done (Nat.lt_irrefl _)
  | @last i gap g w hi hg =>
    obtain rfl := hstops.not_digits hg.nonempty hg.digits
    obtain ⟨c, hc, hhead⟩ := hg.head?
    have hround : readWord ([] : Bytes).length ⟨g ++ [], i, gap, setWords, words⟩ =
        .ok ⟨[], i + 1, gap, setWords + 1, words.set i w⟩ :=
      (readWord_group hi (hhead []) hc).trans (readGroup_digits _ hg (.inl ⟨rfl, rfl⟩) rfl)
    rw [readWords_step (length_lt_append hg.nonempty) hround]
    exact readWords_done (Nat.lt_irrefl _)
  | @group i gap gap' g s w ws hi hg hs ih =>
    rw [readWords_group setWords words gap s t hi hg, ih hstops.tail, setFrom, List.length_cons]
    congr 2 <;> omega
  | @colon i gap' s ws hi hpos hs ih =>
    have htail : Stops s t := Stops.tail (g := []) hstops
    rw [readWords_colon setWords words s t hi hpos, ih htail]
  | @colons gap' s ws hs ih =>
    have htail : Stops s t := Stops.tail (g := []) (Stops.tail (g := []) hstops)
    rw [readWords_colons, ih htail]

theorem hexGroup_takeWhile (hc : isXDigit c = true)
    (hshort : ((c :: s).takeWhile isXDigit).length ≤ 4) : HexGroup ((c :: s).takeWhile isXDigit)
      (UInt16.ofNat (hexValue ((c :: s).takeWhile isXDigit))) := by
  refine ⟨?_, hshort, mem_takeWhile_pos isXDigit _, ?_⟩
  · rw [List.takeWhile_cons_of_pos hc]
    exact List.cons_ne_nil c _
  · rw [UInt16.toNat_ofNat', Nat.mod_eq_of_lt (hexValue_group hshort)]

theorem group_or_refused (hc : isXDigit c = true) :
    (∃ g w, HexGroup g w ∧ (c :: s = g ∨ ∃ r, c :: s = g ++ 58 :: r)) ∨
      (((c :: s).takeWhile isXDigit).length ≤ 4 →
        (c :: s).dropWhile isXDigit ≠ [] ∧ ((c :: s).dropWhile isXDigit).head? ≠ some 58) := by
  have hsplit := List.takeWhile_append_dropWhile (p := isXDigit) (l := c :: s)
  by_cases hgroup : ((c :: s).takeWhile isXDigit).length ≤ 4 ∧
    ((c :: s).dropWhile isXDigit = [] ∨ ((c :: s).dropWhile isXDigit).head? = some 58)
  · left
    refine ⟨_, _, hexGroup_takeWhile hc hgroup.1, ?_⟩
    rcases hgroup.2 with hnil | hhead
    · rw [hnil, List.append_nil] at hsplit
      exact .inl hsplit.symm
    · obtain ⟨r, hr⟩ := List.head?_eq_some_iff.mp hhead
      rw [hr] at hsplit
      exact .inr ⟨r, hsplit.symm⟩
  · right
    intro hshort
    exact not_or.mp fun h => hgroup ⟨hshort, h⟩

theorem run_reads (i : ℕ) (gap : Option ℕ) (hstops : Stops s t) (setWords : ℕ)
    (words : List UInt16) : (∃ ws gap', Reads i gap s ws gap') ∨
      readWords t.length ⟨s ++ t, i, gap, setWords, words⟩ = .error .badParse := by
  induction hn : s.length using Nat.strong_induction_on generalizing s i gap setWords words with
  | _ n ih =>
    cases s with
    | nil => exact .inl ⟨[], gap, .done⟩
    | cons c s =>
      have hlt : t.length < (c :: s ++ t).length := length_lt_append (List.cons_ne_nil c s)
      by_cases hi : i ≤ 7
      case neg =>
        right
        apply readWords_refused hlt
        exact if_pos (Nat.lt_of_not_le hi)
      by_cases hc : isXDigit c = true
      · rcases group_or_refused (s := s) hc with ⟨g, w, hg, hgroup | ⟨r, hgroup⟩⟩ | hrefused
        · left
          rw [hgroup]
          exact ⟨[w], gap, .last hi hg⟩
        · rw [hgroup] at hstops hn ⊢
          have hshorter : r.length < n := by
            rw [← hn, List.length_append, List.length_cons]
            omega
          rw [readWords_group setWords words gap r t hi hg]
          refine (ih _ hshorter (i + 1) gap hstops.tail _ _ rfl).imp_left ?_
          rintro ⟨ws, gap', hread⟩
          exact ⟨w :: ws, gap', .group hi hg hread⟩
        · right
          apply readWords_refused hlt
          rw [readWord_group hi rfl hc]
          exact readGroup_refused hstops rfl (List.cons_ne_nil c s) hrefused
      have hdigit := Bool.eq_false_of_not_eq_true hc
      by_cases hcolon : c = 58 ∧ 0 < i ∧ gap = none
      · obtain ⟨rfl, hpos, rfl⟩ := hcolon
        have htail : Stops s t := Stops.tail (g := []) hstops
        have hshorter : s.length < n := by
          rw [← hn]
          exact Nat.lt_succ_self _
        rw [readWords_colon setWords words s t hi hpos]
        refine (ih _ hshorter i (some i) htail _ _ rfl).imp_left ?_
        rintro ⟨ws, gap', hread⟩
        exact ⟨ws, gap', .colon hi hpos hread⟩
      by_cases hcolons : c = 58 ∧ i = 0 ∧ t.length < (s ++ t).length ∧ (s ++ t).head? = some 58 ∧
        gap = none
      · obtain ⟨rfl, rfl, hroom, hhead, rfl⟩ := hcolons
        cases s with
        | nil => exact absurd hroom (Nat.lt_irrefl _)
        | cons c s =>
          cases hhead
          have htail : Stops s t := Stops.tail (g := []) (Stops.tail (g := []) hstops)
          have hshorter : s.length < n := by
            rw [← hn, List.length_cons, List.length_cons]
            omega
          rw [readWords_colons]
          refine (ih _ hshorter 0 (some 0) htail _ _ rfl).imp_left ?_
          rintro ⟨ws, gap', hread⟩
          exact ⟨ws, gap', .colons hread⟩
      · right
        exact readWords_refused hlt (readWord_refused hdigit hcolon hcolons)

end Loop

end TorDaemon.Net
