import TorDaemon.Net.Ipv6Accepts

/-! The text that `tor_inet_ntop` writes for an address is read as that address. -/
namespace TorDaemon.Net
open Library.NetworkOrder Library.Scanner Library.Separated
open Policies (In6Addr TorAddr)
open SharedRandom (decimal decimalString decimal_decimalString decimalString_digits
  hexDecodeDigit isDigit)

section Numbers

theorem hexDecodeDigit_digitChar {k : ℕ} (hk : k < 16) :
    hexDecodeDigit (Nat.digitChar k).toUInt8 = some (UInt8.ofNat k) := by
  have hall : ∀ k : Fin 16,
      hexDecodeDigit (Nat.digitChar k.val).toUInt8 = some (UInt8.ofNat k.val) := by
    decide
  exact hall ⟨k, hk⟩

theorem hexString_append {m k : ℕ} (hm : 0 < m) (hk : k < 16) :
    hexString (16 * m + k) = hexString m ++ [(Nat.digitChar k).toUInt8] := by
  rw [hexString, ← Nat.toDigits_append_toDigits (by decide) hm hk, Nat.toDigits_of_lt_base hk,
    List.map_append]
  rfl

theorem hexString_spec (n : ℕ) :
    (∀ c ∈ hexString n, isXDigit c = true) ∧ hexValue (hexString n) = n := by
  have hdigit {k : ℕ} (hk : k < 16) : isXDigit (Nat.digitChar k).toUInt8 = true := by
    rw [isXDigit, hexDecodeDigit_digitChar hk]
    rfl
  have hvalue {k : ℕ} (hk : k < 16) :
      ((hexDecodeDigit (Nat.digitChar k).toUInt8).getD 0).toNat = k := by
    rw [hexDecodeDigit_digitChar hk, Option.getD_some, UInt8.toNat_ofNat', Nat.mod_eq_of_lt (by omega)]
  induction n using Nat.base_induction 16 (by decide) with
  | single k hk =>
    rw [hexString, Nat.toDigits_of_lt_base hk]
    refine ⟨by simpa using hdigit hk, ?_⟩
    exact (hexValue_append [] _).trans ((Nat.zero_add _).trans (hvalue hk))
  | digit m k hk hm ih =>
    rw [hexString_append hm hk]
    constructor
    · intro c hc
      rcases List.mem_append.mp hc with hc | hc
      · exact ih.1 c hc
      · rw [List.mem_singleton.mp hc]
        exact hdigit hk
    · rw [hexValue_append, ih.2, hvalue hk]

theorem hexGroup_hexString (w : UInt16) : HexGroup (hexString w.toNat) w := by
  have hlt := w.toNat_lt
  refine ⟨?_, ?_, (hexString_spec w.toNat).1, (hexString_spec w.toNat).2⟩
  · simp [hexString, Nat.toDigits_ne_nil]
  · rw [hexString, List.length_map, Nat.length_toDigits_le_iff (by decide) (by decide)]
    exact hlt

theorem decimalByte_decimalString {n : ℕ} (hn : n < 256) : DecimalByte (decimalString n) n := by
  refine ⟨?_, ?_, decimalString_digits n, decimal_decimalString n, by omega⟩
  · simp [decimalString, Nat.toDigits_ne_nil]
  · rw [decimalString, List.length_map, Nat.length_toDigits_le_iff (by decide) (by decide)]
    omega

theorem quad_dottedQuad {a b c d : ℕ} (ha : a < 256) (hb : b < 256) (hc : c < 256) (hd : d < 256) :
    Quad (dottedQuad a b c d) a b c d := by
  have hquad := Quad.dotted (decimalByte_decimalString ha) (decimalByte_decimalString hb)
    (decimalByte_decimalString hc) (decimalByte_decimalString hd)
  have hsame : dottedQuad a b c d = decimalString a ++ 46 :: (decimalString b ++ 46 ::
      (decimalString c ++ 46 :: decimalString d)) := by
    simp [dottedQuad]
  rw [hsame]
  exact hquad

theorem length_dottedQuad {a b c d : ℕ} (ha : a < 256) (hb : b < 256) (hc : c < 256) (hd : d < 256) :
    (dottedQuad a b c d).length ≤ 15 := by
  have hlength := And.intro (And.intro (decimalByte_decimalString ha).short
    (decimalByte_decimalString hb).short) (And.intro (decimalByte_decimalString hc).short
    (decimalByte_decimalString hd).short)
  simp only [dottedQuad, List.length_append, List.length_cons]
  omega

end Numbers

section Words
variable {gap : Option ℕ} {i p : ℕ} {ws : List UInt16}

/-- After the gap every word is written, with colons between them. -/
theorem groups_putWords (hgap : ∀ p ∈ gap, p < i) (hlen : i + ws.length = 8) (hne : ws ≠ []) :
    Groups (putWords gap i ws) ws := by
  induction ws generalizing i with
  | nil => exact absurd rfl hne
  | cons w ws ih =>
    have hnogap : ¬ (w = 0 ∧ gap = some i) := by
      rintro ⟨-, rfl⟩
      exact absurd (hgap i rfl) (Nat.lt_irrefl i)
    rw [List.length_cons] at hlen
    rw [putWords, if_neg hnogap]
    cases ws with
    | nil =>
      have hi : i = 7 := by simpa using hlen
      rw [hi, if_neg (by simp), List.nil_append, putWords, List.append_nil]
      exact .last (.group (hexGroup_hexString w))
    | cons w' ws =>
      rw [List.length_cons] at hlen
      have htail := ih (i := i + 1) (fun p hp => Nat.lt_succ_of_lt (hgap p hp))
        (by rw [List.length_cons]; omega) (List.cons_ne_nil w' ws)
      rw [if_pos (by omega), List.singleton_append]
      exact .cons (hexGroup_hexString w) htail

theorem putWords_gap {before after : List UInt16} (hp : i + before.length = p)
    (hlen : p + 1 + after.length = 8) :
    ∃ l, Ended HexGroup 58 l before ∧ putWords (some p) i (before ++ 0 :: after) =
      l ++ ((if p = 0 then [58] else []) ++ 58 :: putWords (some p)
        (p + (1 + (after.takeWhile (· = 0)).length)) (after.dropWhile (· = 0))) := by
  induction before generalizing i with
  | nil =>
    obtain rfl : i = p := hp
    refine ⟨[], .nil, ?_⟩
    rw [List.nil_append, List.nil_append, putWords, if_pos ⟨rfl, rfl⟩]
  | cons w before ih =>
    rw [List.length_cons] at hp
    obtain ⟨l, hl, htext⟩ := ih (i := i + 1) (by omega)
    refine ⟨hexString w.toNat ++ 58 :: l, .cons (hexGroup_hexString w) hl, ?_⟩
    have hnogap : ¬ (w = 0 ∧ some p = some i) := by
      rintro ⟨-, heq⟩
      have := Option.some.inj heq
      omega
    rw [List.cons_append, putWords, if_neg hnogap, if_pos (by omega), htext, List.append_assoc]
    rfl

theorem words_of_groups {s : Bytes} (h : Groups s ws) : Words s ws := by
  induction h with
  | last hlast =>
    cases hlast with
    | group hg => exact .last (.group hg)
  | cons hg hs ih => exact .cons hg ih

theorem left_of_ended {l : Bytes} (h : Ended HexGroup 58 l ws) (rest : Bytes) : ∃ l', Left l' ws ∧
      l ++ ((if ws.length = 0 then [58] else []) ++ 58 :: rest) = l' ++ 58 :: 58 :: rest := by
  by_cases hne : ws = []
  · subst hne
    cases h
    exact ⟨[], .inl ⟨rfl, rfl⟩, rfl⟩
  · obtain ⟨l', rfl, hl'⟩ := groups_of_ended h hne
    refine ⟨l', .inr hl', ?_⟩
    rw [if_neg (List.length_eq_zero_iff.not.mpr hne), List.nil_append, List.append_assoc,
      List.singleton_append]

theorem text_of_gap {before after : List UInt16} (hlen : before.length + 1 + after.length = 8) :
    Ipv6Text (putWords (some before.length) 0 (before ++ 0 :: after)) (before ++ 0 :: after) := by
  obtain ⟨l, hl, htext⟩ := putWords_gap (i := 0) (Nat.zero_add _) hlen
  have hsplit := List.takeWhile_append_dropWhile (p := (· = 0)) (l := after)
  have hlength := congrArg List.length hsplit
  rw [List.length_append] at hlength
  have hzeros : after.takeWhile (· = 0) = List.replicate (after.takeWhile (· = 0)).length 0 :=
    List.eq_replicate_iff.mpr ⟨rfl, fun w hw => by simpa using List.mem_takeWhile_imp hw⟩
  generalize hrest : after.dropWhile (· = 0) = rest at *
  generalize hrun : (after.takeWhile (· = 0)).length = run at *
  obtain ⟨l', hl', happend⟩ :=
    left_of_ended hl (putWords (some before.length) (before.length + (1 + run)) rest)
  have hright : putWords (some before.length) (before.length + (1 + run)) rest = [] ∧ rest = [] ∨
      Words (putWords (some before.length) (before.length + (1 + run)) rest) rest := by
    by_cases hne : rest = []
    · subst hne
      exact .inl ⟨by rw [putWords], rfl⟩
    · refine .inr (words_of_groups (groups_putWords ?_ (by omega) hne))
      rintro p ⟨⟩
      omega
  have hwords : before ++ 0 :: after =
      before ++ List.replicate (8 - (before.length + rest.length)) 0 ++ rest := by
    rw [show 8 - (before.length + rest.length) = run + 1 by omega, List.replicate_succ,
      List.append_assoc, List.cons_append, ← hzeros, hsplit]
  rw [htext, happend, hwords]
  exact .compressed hl' hright (by omega)

/-- After a run of zeros the words are those that were left. -/
theorem getElem?_run (w : UInt16) {k : ℕ} (hk : 1 + (ws.takeWhile (· = 0)).length ≤ k) :
    (w :: ws)[k]? = (ws.dropWhile (· = 0))[k - (1 + (ws.takeWhile (· = 0)).length)]? := by
  have hsplit : w :: ws = w :: ws.takeWhile (· = 0) ++ ws.dropWhile (· = 0) := by
    rw [List.cons_append, List.takeWhile_append_dropWhile]
  have hlength : (w :: ws.takeWhile (· = 0)).length = 1 + (ws.takeWhile (· = 0)).length := by
    rw [List.length_cons, Nat.add_comm]
  rw [hsplit, List.getElem?_append_right (by omega), hlength]

theorem longestGap_zero (i : ℕ) (longest : Gap) (ws : List UInt16) :
    longestGap i longest ws = longest ∨ i ≤ (longestGap i longest ws).pos ∧
      ws[(longestGap i longest ws).pos - i]? = some 0 := by
  induction hn : ws.length using Nat.strong_induction_on generalizing i longest ws with
  | _ n ih =>
    cases ws with
    | nil => exact .inl (by rw [longestGap])
    | cons w ws =>
      rw [List.length_cons] at hn
      by_cases hw : w = 0
      · have hle := List.length_dropWhile_le (· = 0) ws
        have hrest := fun longest => ih _ (show (ws.dropWhile (· = 0)).length < n by omega)
          (i + (1 + (ws.takeWhile (· = 0)).length)) longest _ rfl
        have hlater : ∀ gap : Gap, i + (1 + (ws.takeWhile (· = 0)).length) ≤ gap.pos →
            (ws.dropWhile (· = 0))[gap.pos - (i + (1 + (ws.takeWhile (· = 0)).length))]? = some 0 →
            i ≤ gap.pos ∧ (w :: ws)[gap.pos - i]? = some 0 := by
          intro gap hpos hzero
          refine ⟨by omega, ?_⟩
          rw [getElem?_run w (by omega), Nat.sub_sub, hzero]
        rw [longestGap, if_pos hw]
        rcases hrest _ with heq | ⟨hpos, hzero⟩
        · rw [heq]
          split_ifs
          · refine .inr ⟨Nat.le_refl i, ?_⟩
            rw [Nat.sub_self, hw]
            rfl
          · exact .inl rfl
        · exact .inr (hlater _ hpos hzero)
      · rw [longestGap, if_neg hw]
        rcases ih ws.length (by omega) (i + 1) longest ws rfl with heq | ⟨hpos, hzero⟩
        · exact .inl heq
        · right
          refine ⟨by omega, ?_⟩
          have hsucc : (longestGap (i + 1) longest ws).pos - i =
              (longestGap (i + 1) longest ws).pos - (i + 1) + 1 := by omega
          rw [hsucc, List.getElem?_cons_succ, hzero]

theorem gapPosition_zero (h : gapPosition ws = some p) : ws[p]? = some 0 := by
  unfold gapPosition at h
  dsimp only at h
  split_ifs at h with hshort
  cases h
  rcases longestGap_zero 0 ⟨0, 0⟩ ws with heq | ⟨-, hzero⟩
  · rw [heq] at hshort
    exact absurd (Nat.zero_le 1) hshort
  · exact hzero

theorem text_of_putWords (hlen : ws.length = 8) : Ipv6Text (putWords (gapPosition ws) 0 ws) ws := by
  cases hgap : gapPosition ws with
  | none =>
    have hne : ws ≠ [] := List.ne_nil_of_length_pos (by omega)
    exact .full (words_of_groups (groups_putWords (by simp) (by omega) hne)) hlen
  | some p =>
    obtain ⟨hp, hzero⟩ := List.getElem?_eq_some_iff.mp (gapPosition_zero hgap)
    have hsplit : ws = ws.take p ++ 0 :: ws.drop (p + 1) := by
      rw [← hzero, ← List.drop_eq_getElem_cons hp, List.take_append_drop]
    have hbefore : (ws.take p).length = p := List.length_take_of_le hp.le
    have hafter : (ws.drop (p + 1)).length = 8 - (p + 1) := by rw [List.length_drop, hlen]
    have htext : Ipv6Text (putWords (some (ws.take p).length) 0 (ws.take p ++ 0 :: ws.drop (p + 1)))
      (ws.take p ++ 0 :: ws.drop (p + 1)) := text_of_gap (by omega)
    rw [hbefore, ← hsplit] at htext
    exact htext

end Words

section Bytes
variable {addr : In6Addr}

section
variable (addr : In6Addr)

/-- The word at the place. -/
def in6Word (i : ℕ) : UInt16 :=
  (s6Addr addr (2 * i)).toUInt16 <<< 8 + (s6Addr addr (2 * i + 1)).toUInt16

theorem in6Words_eq : in6Words addr =
    [in6Word addr 0, in6Word addr 1, in6Word addr 2, in6Word addr 3, in6Word addr 4,
      in6Word addr 5, in6Word addr 6, in6Word addr 7] := rfl

theorem toNat_in6Word (i : ℕ) : (in6Word addr i).toNat =
    (s6Addr addr (2 * i)).toNat * 256 + (s6Addr addr (2 * i + 1)).toNat := by
  have hhigh := (s6Addr addr (2 * i)).toNat_lt
  have hlow := (s6Addr addr (2 * i + 1)).toNat_lt
  simp only [in6Word, UInt16.toNat_add, UInt16.toNat_shiftLeft, UInt8.toNat_toUInt16,
    UInt16.reduceToNat, Nat.reduceMod, Nat.shiftLeft_eq, Nat.reducePow]
  omega

theorem in6Word_bytes (i : ℕ) : (in6Word addr i >>> 8).toUInt8 = s6Addr addr (2 * i) ∧
      (in6Word addr i &&& 0xff).toUInt8 = s6Addr addr (2 * i + 1) := by
  have hword := toNat_in6Word addr i
  have hhigh := (s6Addr addr (2 * i)).toNat_lt
  have hlow := (s6Addr addr (2 * i + 1)).toNat_lt
  constructor
  · apply UInt8.toNat_inj.mp
    simp only [UInt16.toNat_toUInt8, UInt16.toNat_shiftRight, UInt16.reduceToNat, Nat.reduceMod,
      Nat.shiftRight_eq_div_pow, Nat.reducePow, hword]
    omega
  · apply UInt8.toNat_inj.mp
    have hmask : ∀ n : ℕ, n &&& 255 = n % 256 := fun n => Nat.and_two_pow_sub_one_eq_mod n 8
    simp only [UInt16.toNat_toUInt8, UInt16.toNat_and, UInt16.reduceToNat, hmask, hword]
    omega

theorem map_s6Addr : (List.range 16).map (s6Addr addr) = addr.val := by
  have hlength := addr.property
  apply List.ext_getElem
  · simp [hlength]
  · intro i hi hi'
    rw [List.getElem_map, List.getElem_range, s6Addr, List.getD_eq_getElem?_getD,
      List.getElem?_eq_getElem hi', Option.getD_some]

theorem in6OfWords_in6Words : in6OfWords (in6Words addr) = addr := by
  apply Subtype.ext
  have hbytes : ∀ i ∈ List.range 8, [((in6Words addr).getD i 0 >>> 8).toUInt8,
      ((in6Words addr).getD i 0 &&& 0xff).toUInt8] =
      [s6Addr addr (2 * i), s6Addr addr (2 * i + 1)] := by
    intro i hi
    have hget : (in6Words addr).getD i 0 = in6Word addr i := by
      rw [List.getD_eq_getElem?_getD, in6Words, List.getElem?_map,
        List.getElem?_range (List.mem_range.mp hi)]
      rfl
    rw [hget, (in6Word_bytes addr i).1, (in6Word_bytes addr i).2]
  rw [← map_s6Addr addr]
  exact List.flatMap_congr hbytes

theorem quad_in6Quad : ∃ a b c d, Quad (in6Quad addr) a b c d ∧
    UInt16.ofNat (a * 256 + b) = in6Word addr 6 ∧ UInt16.ofNat (c * 256 + d) = in6Word addr 7 := by
  refine ⟨_, _, _, _, quad_dottedQuad (UInt8.toNat_lt _) (UInt8.toNat_lt _) (UInt8.toNat_lt _)
    (UInt8.toNat_lt _), ?_, ?_⟩
  · exact (congrArg UInt16.ofNat (toNat_in6Word addr 6)).symm.trans UInt16.ofNat_toNat
  · exact (congrArg UInt16.ofNat (toNat_in6Word addr 7)).symm.trans UInt16.ofNat_toNat

theorem ipv6Text_in6Text : Ipv6Text (in6Text addr) (in6Words addr) := by
  obtain ⟨a, b, c, d, hquad, h6, h7⟩ := quad_in6Quad addr
  have hlast : Words (in6Quad addr) [in6Word addr 6, in6Word addr 7] := by
    rw [← h6, ← h7]
    exact .last (.quad hquad)
  have hwords := in6Words_eq addr
  unfold in6Text
  dsimp only
  split_ifs with hv4 hcompat
  · obtain ⟨h0, h1, h2, h3, h4, -⟩ := hv4
    have hzero : in6Word addr 0 = 0 ∧ in6Word addr 1 = 0 ∧ in6Word addr 2 = 0 ∧
        in6Word addr 3 = 0 ∧ in6Word addr 4 = 0 ∧ in6Word addr 5 = 0 := ⟨h0, h1, h2, h3, h4, hcompat⟩
    rw [hwords, hzero.1, hzero.2.1, hzero.2.2.1, hzero.2.2.2.1, hzero.2.2.2.2.1, hzero.2.2.2.2.2]
    exact .compressed (.inl ⟨rfl, rfl⟩) (.inr hlast) (by simp)
  · obtain ⟨h0, h1, h2, h3, h4, -⟩ := hv4
    have hzero : in6Word addr 0 = 0 ∧ in6Word addr 1 = 0 ∧ in6Word addr 2 = 0 ∧
        in6Word addr 3 = 0 ∧ in6Word addr 4 = 0 := ⟨h0, h1, h2, h3, h4⟩
    have hmapped : Words (hexString (in6Word addr 5).toNat ++ 58 :: in6Quad addr)
        [in6Word addr 5, in6Word addr 6, in6Word addr 7] :=
      .cons (hexGroup_hexString (in6Word addr 5)) hlast
    rw [hwords, hzero.1, hzero.2.1, hzero.2.2.1, hzero.2.2.2.1, hzero.2.2.2.2]
    exact .compressed (.inl ⟨rfl, rfl⟩) (.inr hmapped) (by simp)
  · exact text_of_putWords (by rw [hwords]; rfl)

end

end Bytes

/-! IPv4 addresses: their octets, and their text. -/

section Octets

theorem octet_eq (a : BitVec 32) (k : ℕ) : octet a k = a.toNat / 2 ^ k % 256 := by
  have hmask : ∀ n : ℕ, n &&& 255 = n % 256 := fun n => Nat.and_two_pow_sub_one_eq_mod n 8
  rw [octet, BitVec.toNat_and, BitVec.toNat_ushiftRight, Nat.shiftRight_eq_div_pow]
  exact hmask _

theorem toNat_ofOctets {a b c d : ℕ} (ha : a < 256) (hb : b < 256) (hc : c < 256) (hd : d < 256) :
    (ofOctets a b c d).toNat = a * 2 ^ 24 + (b * 2 ^ 16 + (c * 2 ^ 8 + d)) := by
  have hlow : c <<< 8 ||| d = c * 2 ^ 8 + d := Keypin.shiftLeft_or hd
  have hmiddle : b <<< 16 ||| (c * 2 ^ 8 + d) = b * 2 ^ 16 + (c * 2 ^ 8 + d) :=
    Keypin.shiftLeft_or (by omega)
  have hhigh : a <<< 24 ||| (b * 2 ^ 16 + (c * 2 ^ 8 + d)) =
      a * 2 ^ 24 + (b * 2 ^ 16 + (c * 2 ^ 8 + d)) := Keypin.shiftLeft_or (by omega)
  rw [ofOctets, BitVec.toNat_ofNat, Nat.or_assoc, Nat.or_assoc, hlow, hmiddle, hhigh,
    Nat.mod_eq_of_lt (by omega)]

/-- A mask of eight bits picks out an octet. -/
theorem and_mask (n k : ℕ) : n &&& 0xff <<< k = n / 2 ^ k % 256 * 2 ^ k := by
  have hmask : n >>> k &&& 0xff = n / 2 ^ k % 256 := by
    rw [Nat.shiftRight_eq_div_pow]
    exact Nat.and_two_pow_sub_one_eq_mod _ 8
  rw [← hmask, ← Nat.shiftLeft_eq, Nat.shiftLeft_and_distrib]
  apply Nat.eq_of_testBit_eq
  intro i
  by_cases hi : k ≤ i
  · simp [hi]
  · simp [hi]

section
variable (a : BitVec 32)

theorem reverseBytes_eq :
    reverseBytes a = ofOctets (octet a 0) (octet a 8) (octet a 16) (octet a 24) := by
  have h0 : ((a &&& 0x000000ff) <<< 24).toNat = octet a 0 <<< 24 := by
    have hmask : a.toNat &&& 255 = a.toNat / 2 ^ 0 % 256 * 2 ^ 0 := and_mask a.toNat 0
    rw [octet_eq, BitVec.toNat_shiftLeft, BitVec.toNat_and, Nat.shiftLeft_eq, Nat.shiftLeft_eq]
    change (a.toNat &&& 255) * 2 ^ 24 % 2 ^ 32 = _
    omega
  have h1 : ((a &&& 0x0000ff00) <<< 8).toNat = octet a 8 <<< 16 := by
    have hmask : a.toNat &&& 0xff00 = a.toNat / 2 ^ 8 % 256 * 2 ^ 8 := and_mask a.toNat 8
    rw [octet_eq, BitVec.toNat_shiftLeft, BitVec.toNat_and, Nat.shiftLeft_eq, Nat.shiftLeft_eq]
    change (a.toNat &&& 0xff00) * 2 ^ 8 % 2 ^ 32 = _
    omega
  have h2 : ((a &&& 0x00ff0000) >>> 8).toNat = octet a 16 <<< 8 := by
    have hmask : a.toNat &&& 0xff0000 = a.toNat / 2 ^ 16 % 256 * 2 ^ 16 := and_mask a.toNat 16
    rw [octet_eq, BitVec.toNat_ushiftRight, BitVec.toNat_and, Nat.shiftRight_eq_div_pow,
      Nat.shiftLeft_eq]
    change (a.toNat &&& 0xff0000) / 2 ^ 8 = _
    omega
  have h3 : ((a &&& 0xff000000) >>> 24).toNat = octet a 24 := by
    have hmask : a.toNat &&& 0xff000000 = a.toNat / 2 ^ 24 % 256 * 2 ^ 24 := and_mask a.toNat 24
    rw [octet_eq, BitVec.toNat_ushiftRight, BitVec.toNat_and, Nat.shiftRight_eq_div_pow]
    change (a.toNat &&& 0xff000000) / 2 ^ 24 = _
    omega
  have hor : (reverseBytes a).toNat =
      octet a 0 <<< 24 ||| octet a 8 <<< 16 ||| octet a 16 <<< 8 ||| octet a 24 := by
    rw [reverseBytes, BitVec.toNat_or, BitVec.toNat_or, BitVec.toNat_or, h0, h1, h2, h3]
  apply BitVec.eq_of_toNat_eq
  rw [ofOctets, BitVec.toNat_ofNat, ← hor, Nat.mod_eq_of_lt (reverseBytes a).isLt]

theorem octet_lt (k : ℕ) : octet a k < 256 := by
  rw [octet_eq]
  exact Nat.mod_lt _ (by decide)

/-- The octets of an address make it up. -/
theorem ofOctets_octet : ofOctets (octet a 24) (octet a 16) (octet a 8) (octet a 0) = a := by
  apply BitVec.eq_of_toNat_eq
  rw [toNat_ofOctets (octet_lt a 24) (octet_lt a 16) (octet_lt a 8) (octet_lt a 0)]
  simp only [octet_eq]
  omega

theorem reverseBytes_ofOctets :
    reverseBytes (ofOctets (octet a 0) (octet a 8) (octet a 16) (octet a 24)) = a := by
  have hnat := toNat_ofOctets (octet_lt a 0) (octet_lt a 8) (octet_lt a 16) (octet_lt a 24)
  have hlt := And.intro (And.intro (octet_lt a 0) (octet_lt a 8))
    (And.intro (octet_lt a 16) (octet_lt a 24))
  have hswap : ∀ k m,
      (ofOctets (octet a 0) (octet a 8) (octet a 16) (octet a 24)).toNat / 2 ^ k % 256 = octet a m →
      octet (ofOctets (octet a 0) (octet a 8) (octet a 16) (octet a 24)) k = octet a m := by
    intro k m h
    rw [octet_eq, h]
  rw [reverseBytes_eq, hswap 0 24 (by rw [hnat]; omega), hswap 8 16 (by rw [hnat]; omega),
    hswap 16 8 (by rw [hnat]; omega), hswap 24 0 (by rw [hnat]; omega), ofOctets_octet]

end

end Octets

section Text
variable {a b c d : ℕ}

theorem noLeadingZero {n : ℕ} (hn : n < 256) :
    ¬ (1 < (decimalString n).length ∧ (decimalString n).head? = some 48) := by
  have hall : ∀ n : Fin 256,
      ¬ (1 < (decimalString n.val).length ∧ (decimalString n.val).head? = some 48) := by
    decide +kernel
  exact hall ⟨n, hn⟩

theorem splitOn_dottedQuad (a b c d : ℕ) : (dottedQuad a b c d).splitOn 46 =
    [decimalString a, decimalString b, decimalString c, decimalString d] := by
  have hnodot : ∀ w ∈ [decimalString a, decimalString b, decimalString c, decimalString d],
      (46 : UInt8) ∉ w := by
    intro w hw hmem
    have hdigits : ∀ n, (46 : UInt8) ∉ decimalString n := by
      intro n hn
      exact absurd (decimalString_digits n 46 hn) (by decide)
    simp only [List.mem_cons, List.not_mem_nil, or_false] at hw
    rcases hw with rfl | rfl | rfl | rfl
    · exact hdigits a hmem
    · exact hdigits b hmem
    · exact hdigits c hmem
    · exact hdigits d hmem
  have hjoin : dottedQuad a b c d = [(46 : UInt8)].intercalate
      [decimalString a, decimalString b, decimalString c, decimalString d] := by
    simp [dottedQuad, List.intercalate]
  rw [hjoin, List.splitOn_intercalate 46 hnodot (List.cons_ne_nil _ _)]

/-- Four octets with dots between them are read back. -/
theorem torInetAton_dottedQuad (ha : a < 256) (hb : b < 256) (hc : c < 256) (hd : d < 256) :
    torInetAton (dottedQuad a b c d) = some (ofOctets a b c d) := by
  have hzeros : ¬ ((dottedQuad a b c d).splitOn 46).any
      (fun octet => 1 < octet.length ∧ octet.head? = some 48) = true := by
    rw [splitOn_dottedQuad]
    simp only [List.any_cons, List.any_nil, Bool.or_false, Bool.or_eq_true, decide_eq_true_eq]
    rintro (h | h | h | h)
    · exact noLeadingZero ha h
    · exact noLeadingZero hb h
    · exact noLeadingZero hc h
    · exact noLeadingZero hd h
  unfold torInetAton
  rw [scanQuad_of_quad (quad_dottedQuad ha hb hc hd)]
  dsimp only
  rw [if_neg hzeros, if_neg (by omega)]

end Text

end TorDaemon.Net
