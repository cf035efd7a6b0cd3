import TorDaemon.Dirvote.Params
import TorDaemon.Net.InetNtop

/-! The texts of addresses are read as the addresses that they were written for. -/
namespace TorDaemon.Net
open Encoding Library.NetworkOrder Library.Separated
open Dirvote (longString torParseLong torParseLong_longString)
open Policies (Family In6Addr TorAddr)
open SharedRandom (ascii decimalString hexDecodeDigit strcasecmpendEq strcaseeq
  decimalString_digits isDigit isSpace noSpace_of_digit)

section Ntop
variable {addr : TorAddr} {len : ℕ} {s text : Bytes} {words : List UInt16}

def torAddrBufLen : ℕ := 48

theorem torSnprintf_eq {size : ℕ} (h : torSnprintf size text = some s) : text = s := by
  unfold torSnprintf at h
  rw [Option.ite_none_right_eq_some] at h
  exact Option.some.inj h.2

theorem word_of_bytes (w : UInt16) :
    (w >>> 8).toUInt8.toUInt16 <<< 8 + (w &&& 0xff).toUInt8.toUInt16 = w := by
  have hlt := w.toNat_lt
  have hmask : ∀ n : ℕ, n &&& 255 = n % 256 := fun n => Nat.and_two_pow_sub_one_eq_mod n 8
  apply UInt16.toNat_inj.mp
  simp only [UInt16.toNat_add, UInt16.toNat_shiftLeft, UInt8.toNat_toUInt16, UInt16.toNat_toUInt8,
    UInt16.toNat_shiftRight, UInt16.toNat_and, UInt16.reduceToNat, Nat.reduceMod, Nat.shiftLeft_eq,
    Nat.shiftRight_eq_div_pow, Nat.reducePow, hmask]
  omega

theorem in6Word_in6OfWords (words : List UInt16) {i : ℕ} (hi : i < 8) :
    in6Word (in6OfWords words) i = words.getD i 0 := by
  interval_cases i <;> exact word_of_bytes _

theorem in6Words_in6OfWords (h : words.length = 8) : in6Words (in6OfWords words) = words := by
  apply List.ext_getElem
  · rw [h]
    rfl
  · intro i hi hi'
    have hword := in6Word_in6OfWords words (i := i) (by omega)
    rw [List.getD_eq_getElem?_getD, List.getElem?_eq_getElem hi', Option.getD_some] at hword
    rw [← hword]
    simp only [in6Words, List.getElem_map, List.getElem_range, in6Word]

/-- A word is four digits and a colon at most, and one more colon stands at the front. -/
theorem length_putWords (gap : Option ℕ) (i : ℕ) (words : List UInt16) :
    (putWords gap i words).length ≤ 5 * words.length + 1 := by
  induction hn : words.length using Nat.strong_induction_on generalizing i words with
  | _ n ih =>
    cases words with
    | nil =>
      rw [putWords]
      exact Nat.zero_le _
    | cons w words =>
      rw [List.length_cons] at hn
      rw [putWords]
      by_cases hgap : w = 0 ∧ gap = some i
      · have hle := List.length_dropWhile_le (· = 0) words
        have hrest := ih _ (show (words.dropWhile (· = 0)).length < n by omega)
          (i + (1 + (words.takeWhile (· = 0)).length)) _ rfl
        have hfront : (if i = 0 then [(58 : UInt8)] else []).length ≤ 1 := by split_ifs <;> simp
        rw [if_pos hgap, List.length_append, List.length_cons]
        omega
      · have hgroup := (hexGroup_hexString w).short
        have hrest := ih _ (show words.length < n by omega) (i + 1) _ rfl
        have hcolon : (if i ≠ 7 then [(58 : UInt8)] else []).length ≤ 1 := by split_ifs <;> simp
        rw [if_neg hgap, List.length_append, List.length_append]
        omega

/-- Every text fits into the buffers that the callers have. -/
theorem length_in6Text (addr : In6Addr) : (in6Text addr).length < 46 := by
  have hquad : (in6Quad addr).length ≤ 15 :=
    length_dottedQuad (UInt8.toNat_lt _) (UInt8.toNat_lt _) (UInt8.toNat_lt _) (UInt8.toNat_lt _)
  have hgroup := (hexGroup_hexString ((in6Words addr).getD 5 0)).short
  have hwords : (in6Words addr).length = 8 := rfl
  have hput := length_putWords (gapPosition (in6Words addr)) 0 (in6Words addr)
  unfold in6Text
  dsimp only
  split_ifs
  · simp only [List.length_cons]
    omega
  · simp only [List.length_cons, List.length_append]
    omega
  · omega

theorem torInetPton_torInetNtop (h : torInetNtop addr len = some text) :
    torInetPton addr.family text = .ok addr := by
  cases addr with
  | unspec => cases h
  | inet a =>
    obtain rfl := torSnprintf_eq h
    have hread := torInetAton_dottedQuad (octet_lt a 24) (octet_lt a 16) (octet_lt a 8) (octet_lt a 0)
    rw [ofOctets_octet] at hread
    simp only [TorAddr.family, torInetPton, hread]
  | inet6 a =>
    unfold torInetNtop at h
    rw [Option.ite_none_left_eq_some] at h
    cases h.2
    simp only [TorAddr.family, torInetPton, torInet6Pton_of_text (ipv6Text_in6Text a), Except.map,
      in6OfWords_in6Words]

theorem torInetNtop_isSome (h : addr.family ≠ .unspec) (hlen : torAddrBufLen ≤ len)
    (hmax : len ≤ sizeTCeiling) : ∃ text, torInetNtop addr len = some text := by
  rw [torAddrBufLen] at hlen
  cases addr with
  | unspec => exact absurd rfl h
  | inet a =>
    have hshort := length_dottedQuad (octet_lt a 24) (octet_lt a 16) (octet_lt a 8) (octet_lt a 0)
    exact ⟨_, if_pos ⟨hmax, by omega⟩⟩
  | inet6 a =>
    have hshort := length_in6Text a
    exact ⟨_, if_neg (by omega)⟩

/-- IPv6 texts are read as the words that they stand for. -/
theorem torInetPton_inet6 (s : Bytes) (a : In6Addr) :
    torInetPton .inet6 s = .ok (.inet6 a) ↔ Ipv6Text s (in6Words a) := by
  constructor
  · intro h
    cases hread : torInet6Pton s with
    | error e => simp [torInetPton, hread, Except.map] at h
    | ok words =>
      have htext := torInet6Pton_eq_ok.mp hread
      simp only [torInetPton, hread, Except.map, Except.ok.injEq, TorAddr.inet6.injEq] at h
      rwa [← h, in6Words_in6OfWords htext.length]
  · intro h
    simp only [torInetPton, torInet6Pton_eq_ok.mpr h, Except.map, in6OfWords_in6Words]

theorem torInetPton_noAssertion (s : Bytes) : torInetPton .inet6 s ≠ .error .assertion := by
  rcases torInet6Pton_cases s with ⟨words, hok, -⟩ | hrefused
  · simp [torInetPton, hok, Except.map]
  · simp [torInetPton, hrefused, Except.map]

end Ntop

section Ptr
variable {addr : TorAddr} {outlen : ℕ} {name : Bytes} {family : Family} {acceptRegular : Bool}

theorem strcasecmpendEq_append (s suffix : Bytes) :
    strcasecmpendEq (s ++ suffix) suffix = true := by
  rw [strcasecmpendEq, List.map_append]
  exact List.isSuffixOf_iff_suffix.mpr (List.suffix_append ..)

theorem nibbles (b : UInt8) : hexDecodeDigit (hexDigitLower (b &&& 0x0f)) = some (b &&& 0x0f) ∧
      hexDecodeDigit (hexDigitLower (b >>> 4)) = some (b >>> 4) ∧
      (b &&& (0x0f : UInt8)) ||| (b >>> 4) <<< 4 = b := by
  revert b
  decide +kernel

/-- The bytes are put in front of those that were read before. -/
theorem readNibbles_eq (bytes rest read : Bytes) :
    readNibbles bytes.length (bytes.flatMap byteNibbles ++ rest) read =
      some (bytes.reverse ++ read, rest) := by
  induction bytes generalizing read with
  | nil => rfl
  | cons b bytes ih =>
    obtain ⟨hlow, hhigh, hbyte⟩ := nibbles b
    rw [List.flatMap_cons, List.length_cons, List.append_assoc, byteNibbles]
    simp only [List.cons_append, List.nil_append, readNibbles, hlow, hhigh, hbyte]
    rw [ih, List.reverse_cons, List.append_assoc, List.singleton_append]

theorem ip6Arpa_notInAddr (s : Bytes) :
    strcasecmpendEq (s ++ ascii "ip6.arpa") (ascii ".in-addr.arpa") = false := by
  rw [strcasecmpendEq, List.map_append]
  refine Bool.eq_false_iff.mpr fun h => ?_
  have hshort : (ascii "ip6.arpa").map SharedRandom.toLower <:+
      (ascii ".in-addr.arpa").map SharedRandom.toLower :=
    List.suffix_of_suffix_length_le (List.suffix_append ..) (List.isSuffixOf_iff_suffix.mp h)
      (by decide)
  exact absurd hshort (by decide)

/-- There is a dot before the domain of the name. -/
theorem ip6Arpa_dot {bytes : Bytes} (hne : bytes ≠ []) :
    ∃ s, bytes.flatMap byteNibbles ++ ascii "ip6.arpa" = s ++ ascii ".ip6.arpa" := by
  have hdomain : ascii ".ip6.arpa" = 46 :: ascii "ip6.arpa" := rfl
  obtain ⟨front, byte, rfl⟩ : ∃ front byte, bytes = front ++ [byte] :=
    ⟨_, _, (List.dropLast_append_getLast hne).symm⟩
  refine ⟨front.flatMap byteNibbles ++
    [hexDigitLower (byte &&& 0x0f), 46, hexDigitLower (byte >>> 4)], ?_⟩
  rw [hdomain, List.flatMap_append, List.flatMap_singleton, byteNibbles]
  simp only [List.append_assoc, List.cons_append, List.nil_append]

theorem torAddrParsePTRName_inet (a : BitVec 32) (hfamily : family = .unspec ∨ family = .inet) :
    torAddrParsePTRName (dottedQuad (octet a 0) (octet a 8) (octet a 16) (octet a 24) ++
      ascii ".in-addr.arpa") family acceptRegular = some (.parsed (.inet a)) := by
  have hshort := length_dottedQuad (octet_lt a 0) (octet_lt a 8) (octet_lt a 16) (octet_lt a 24)
  have hread := torInetAton_dottedQuad (octet_lt a 0) (octet_lt a 8) (octet_lt a 16) (octet_lt a 24)
  have hlen : (dottedQuad (octet a 0) (octet a 8) (octet a 16) (octet a 24) ++
      ascii ".in-addr.arpa").length - (ascii ".in-addr.arpa").length =
      (dottedQuad (octet a 0) (octet a 8) (octet a 16) (octet a 24)).length := by
    rw [List.length_append, Nat.add_sub_cancel]
  have hnot6 : family ≠ .inet6 := by
    rcases hfamily with rfl | rfl <;> decide
  rw [torAddrParsePTRName, if_pos (strcasecmpendEq_append ..), parseInAddrArpa, hlen,
    if_neg hnot6, if_neg (by rw [ntoaBufLen]; omega), List.take_left, hread]
  dsimp only
  rw [reverseBytes_ofOctets]

theorem torAddrParsePTRName_inet6 (a : In6Addr) (hfamily : family = .unspec ∨ family = .inet6) :
    torAddrParsePTRName (a.val.reverse.flatMap byteNibbles ++ ascii "ip6.arpa") family
      acceptRegular = some (.parsed (.inet6 a)) := by
  have hlength := a.property
  have hne : a.val.reverse ≠ [] := by
    intro hnil
    rw [List.reverse_eq_nil_iff.mp hnil] at hlength
    cases hlength
  have hend : strcasecmpendEq
      (a.val.reverse.flatMap byteNibbles ++ ascii "ip6.arpa") (ascii ".ip6.arpa") = true := by
    obtain ⟨s, hs⟩ := ip6Arpa_dot hne
    rw [hs, strcasecmpendEq_append]
  have hread := readNibbles_eq a.val.reverse (ascii "ip6.arpa") []
  rw [List.length_reverse, hlength, List.reverse_reverse, List.append_nil] at hread
  have hnot4 : family ≠ .inet := by
    rcases hfamily with rfl | rfl <;> decide
  have hdomain : strcaseeq (ascii "ip6.arpa") (ascii "ip6.arpa") = true := by decide
  rw [torAddrParsePTRName, if_neg (by rw [ip6Arpa_notInAddr]; exact Bool.false_ne_true),
    if_pos hend, parseIp6Arpa, if_neg hnot4, hread]
  dsimp only
  rw [if_pos hdomain, dif_pos hlength]

theorem torAddrParsePTRName_toPTRName (h : torAddrToPTRName outlen addr = some name)
    (hfamily : family = .unspec ∨ family = addr.family) :
    torAddrParsePTRName name family acceptRegular = some (.parsed addr) := by
  cases addr with
  | unspec => cases h
  | inet a =>
    obtain rfl := torSnprintf_eq h
    exact torAddrParsePTRName_inet a hfamily
  | inet6 a =>
    unfold torAddrToPTRName at h
    rw [Option.ite_none_left_eq_some] at h
    cases h.2
    exact torAddrParsePTRName_inet6 a hfamily

theorem torAddrToPTRName_isSome (h : addr.family ≠ .unspec) (hlen : reverseLookupNameBufLen ≤ outlen)
    (hmax : outlen ≤ sizeTCeiling) : ∃ name, torAddrToPTRName outlen addr = some name := by
  cases addr with
  | unspec => exact absurd rfl h
  | inet a =>
    have hshort := length_dottedQuad (octet_lt a 0) (octet_lt a 8) (octet_lt a 16) (octet_lt a 24)
    have hsuffix : (ascii ".in-addr.arpa").length = 13 := by decide
    rw [reverseLookupNameBufLen] at hlen
    exact ⟨_, if_pos ⟨hmax, by rw [List.length_append]; omega⟩⟩
  | inet6 a => exact ⟨_, if_neg (Nat.not_lt.mpr hlen)⟩

end Ptr

section RoundTrips

/-- The texts of an address, and its name for a reverse lookup, are read as the address. -/
structure ReadsBack (addr : TorAddr) : Prop where
  ntop : ∀ len, ∀ text ∈ torInetNtop addr len, torInetPton addr.family text = .ok addr
  ntopRoom : addr.family ≠ .unspec → ∀ len, torAddrBufLen ≤ len → len ≤ sizeTCeiling →
    (torInetNtop addr len).isSome
  ptrName : ∀ outlen family acceptRegular, family = .unspec ∨ family = addr.family →
    ∀ name ∈ torAddrToPTRName outlen addr,
      torAddrParsePTRName name family acceptRegular = some (.parsed addr)
  ptrNameRoom : addr.family ≠ .unspec → ∀ outlen, reverseLookupNameBufLen ≤ outlen →
    outlen ≤ sizeTCeiling → (torAddrToPTRName outlen addr).isSome

theorem readsBack (addr : TorAddr) : ReadsBack addr := by
  refine ⟨?_, ?_, ?_, ?_⟩
  · exact fun len text htext => torInetPton_torInetNtop htext
  · exact fun h len hlen hmax => Option.isSome_iff_exists.mpr (torInetNtop_isSome h hlen hmax)
  · exact fun outlen family acceptRegular hfamily name hname =>
      torAddrParsePTRName_toPTRName hname hfamily
  · exact fun h outlen hlen hmax =>
      Option.isSome_iff_exists.mpr (torAddrToPTRName_isSome h hlen hmax)

/-- Addresses are read back from their texts, and the IPv6 texts that are read are those of the
grammar, without an assertion that fails. -/
theorem addressTexts_roundTrip : (∀ addr, ReadsBack addr) ∧ ∀ s : Bytes,
      (∀ a : In6Addr, torInetPton .inet6 s = .ok (.inet6 a) ↔ Ipv6Text s (in6Words a)) ∧
      torInetPton .inet6 s ≠ .error .assertion :=
  ⟨readsBack, fun s => ⟨torInetPton_inet6 s, torInetPton_noAssertion s⟩⟩

end RoundTrips

/-! An address and a port in one text (`address.c`). -/

section Format

def torAddrToStr (addr : TorAddr) (len : ℕ) (decorate : Bool) : Option Bytes :=
  match addr with
  | .inet _ => if len < 8 then none else torInetNtop addr len
  | .inet6 _ =>
    if len < 3 + (if decorate then 2 else 0) then none
    else if decorate then (torInetNtop addr (len - 2)).map fun s => 91 :: (s ++ [93])
    else torInetNtop addr len
  | .unspec => none

def fmtAddrImpl (addr : TorAddr) (decorate : Bool) : Bytes :=
  (torAddrToStr addr torAddrBufLen decorate).getD (ascii "???")

def fmtAndDecorateAddr (addr : TorAddr) : Bytes := fmtAddrImpl addr true

end Format

section Parse

/-- `strrchr`: the text before the last `c`, and the text behind it. -/
def strrchr (s : Bytes) (c : UInt8) : Option (Bytes × Bytes) :=
  if c ∈ s then some ((s.rdropWhile (· ≠ c)).dropLast, s.rtakeWhile (· ≠ c)) else none

/-- The address, and the port or 0. -/
def torAddrPortSplit (addrport : Bytes) : Except Stop (Bytes × ℕ) :=
  match torAddrParse addrport with
  | .error .assertion => .error .assertion
  | .ok (.inet6 _) => .ok (addrport, 0)
  | _ =>
    match strrchr addrport 58 with
    | none => .ok (addrport, 0)
    | some (address, port) =>
      match torParseLong port 1 65535 with
      | none => .error .badParse
      | some port => .ok (address, port.toNat)

def torAddrPortParse (addrport : Bytes) (defaultPort : ℤ) : Except Stop (TorAddr × ℕ) := do
  let (address, port) ← torAddrPortSplit addrport
  if port = 0 ∧ defaultPort < 0 then .error .badParse
  else
    let addr ← torAddrParseImpl address (port = 0)
    return (addr, if port = 0 then defaultPort.toNat % 65536 else port)

end Parse

section Characters
variable {s : Bytes} {ws : List UInt16} {a b c d : ℕ}

/-- What the text of an address may contain. -/
def IsAddrChar (x : UInt8) : Prop := isXDigit x = true ∨ x = 58 ∨ x = 46

theorem isXDigit_of_digit {x : UInt8} (h : isDigit x = true) : isXDigit x = true := by
  revert x
  decide +kernel

theorem isSpace_of_addrChar {x : UInt8} (h : IsAddrChar x) : isSpace x = false := by
  rcases h with h | rfl | rfl
  · revert x
    decide +kernel
  · decide
  · decide

theorem HexGroup.addrChar {g : Bytes} {w : UInt16} (h : HexGroup g w) : ∀ x ∈ g, IsAddrChar x :=
  fun x hx => .inl (h.digits x hx)

theorem Quad.addrChar (h : Quad s a b c d) : ∀ x ∈ s, IsAddrChar x := by
  cases h with
  | @dotted ga gb gc gd _ _ _ _ ha hb hc hd =>
    have hdigit : ∀ g n, DecimalByte g n → ∀ x ∈ g, IsAddrChar x := fun g n hg x hx =>
      .inl (isXDigit_of_digit (hg.digits x hx))
    have hdot : IsAddrChar 46 := .inr (.inr rfl)
    simp only [List.forall_mem_append, List.forall_mem_cons]
    exact ⟨hdigit _ _ ha, hdot, hdigit _ _ hb, hdot, hdigit _ _ hc, hdot, hdigit _ _ hd⟩

theorem Ended.addrChar (h : Ended HexGroup 58 s ws) : ∀ x ∈ s, IsAddrChar x :=
  h.forall_mem (.inr (.inl rfl)) fun _ _ hg => hg.addrChar

theorem Words.addrChar (h : Words s ws) : ∀ x ∈ s, IsAddrChar x := by
  obtain ⟨pre, wp, t, tw, rfl, rfl, hpre, hlast⟩ := joined_iff.mp h
  rw [List.forall_mem_append]
  refine ⟨Ended.addrChar hpre, ?_⟩
  cases hlast with
  | group hg => exact hg.addrChar
  | quad hq => exact hq.addrChar

theorem Ipv6Text.addrChar (h : Ipv6Text s ws) : ∀ x ∈ s, IsAddrChar x := by
  cases h with
  | full hs => exact Words.addrChar hs
  | @compressed l r ls rs hl hr =>
    have hcolon : IsAddrChar 58 := .inr (.inl rfl)
    rw [List.forall_mem_append, List.forall_mem_cons, List.forall_mem_cons]
    refine ⟨?_, hcolon, hcolon, ?_⟩
    · rcases hl with ⟨rfl, -⟩ | hl
      · simp
      · exact Words.addrChar (words_of_groups hl)
    · rcases hr with ⟨rfl, -⟩ | hr
      · simp
      · exact Words.addrChar hr

end Characters

section RoundTrip
variable {addr : TorAddr} {len port : ℕ} {before after : Bytes} {x : UInt8}

theorem strrchr_eq (h : x ∉ after) : strrchr (before ++ x :: after) x = some (before, after) := by
  have hafter : ∀ y ∈ after, (decide (y ≠ x)) = true := by
    rintro y hy
    simp only [ne_eq, decide_eq_true_eq]
    rintro rfl
    exact h hy
  have hdrop : (before ++ x :: after).rdropWhile (· ≠ x) = before ++ [x] := by
    rw [List.rdropWhile, List.reverse_append, List.reverse_cons, List.append_assoc,
      List.singleton_append, Library.Scanner.dropWhile_until]
    · simp
    · exact fun y hy => hafter y (List.mem_reverse.mp hy)
    · simp
  have htake : (before ++ x :: after).rtakeWhile (· ≠ x) = after := by
    rw [List.rtakeWhile, List.reverse_append, List.reverse_cons, List.append_assoc,
      List.singleton_append, Library.Scanner.takeWhile_until, List.reverse_reverse]
    · exact fun y hy => hafter y (List.mem_reverse.mp hy)
    · simp
  rw [strrchr, if_pos (by simp), hdrop, htake, List.dropLast_concat]

/-! ### The texts of addresses -/

theorem torAddrToStr_inet (a : BitVec 32) (hlen : torAddrBufLen ≤ len) (hmax : len ≤ sizeTCeiling)
    (decorate : Bool) : torAddrToStr (.inet a) len decorate =
      some (dottedQuad (octet a 24) (octet a 16) (octet a 8) (octet a 0)) := by
  have hshort := length_dottedQuad (octet_lt a 24) (octet_lt a 16) (octet_lt a 8) (octet_lt a 0)
  rw [torAddrBufLen] at hlen
  unfold torAddrToStr torInetNtop torInetNtoa torSnprintf
  dsimp only
  rw [if_neg (by omega), if_pos ⟨hmax, by omega⟩]

theorem torAddrToStr_inet6 (a : In6Addr) (hlen : torAddrBufLen ≤ len) :
    torAddrToStr (.inet6 a) len true = some (91 :: (in6Text a ++ [93])) := by
  have hshort := length_in6Text a
  rw [torAddrBufLen] at hlen
  unfold torAddrToStr torInetNtop
  dsimp only
  rw [if_neg (by simp only [if_true]; omega), if_pos rfl, if_neg (by omega), Option.map_some]

theorem fmtAndDecorateAddr_inet (a : BitVec 32) : fmtAndDecorateAddr (.inet a) =
    dottedQuad (octet a 24) (octet a 16) (octet a 8) (octet a 0) := by
  rw [fmtAndDecorateAddr, fmtAddrImpl, torAddrToStr_inet a (Nat.le_refl _) (by decide),
    Option.getD_some]

theorem fmtAndDecorateAddr_inet6 (a : In6Addr) :
    fmtAndDecorateAddr (.inet6 a) = 91 :: (in6Text a ++ [93]) := by
  rw [fmtAndDecorateAddr, fmtAddrImpl, torAddrToStr_inet6 a (Nat.le_refl _), Option.getD_some]

/-- In any buffer that is large enough, the decorated text is the same. -/
theorem torAddrToStr_decorated (h : addr ≠ .unspec) (hlen : torAddrBufLen ≤ len)
    (hmax : len ≤ sizeTCeiling) : torAddrToStr addr len true = some (fmtAndDecorateAddr addr) := by
  cases addr with
  | unspec => exact absurd rfl h
  | inet a => rw [torAddrToStr_inet a hlen hmax, fmtAndDecorateAddr_inet]
  | inet6 a => rw [torAddrToStr_inet6 a hlen, fmtAndDecorateAddr_inet6]

theorem torAddrToStr_isSome (h : addr ≠ .unspec) (hlen : torAddrBufLen ≤ len)
    (hmax : len ≤ sizeTCeiling) : ∃ text, torAddrToStr addr len false = some text := by
  have hroom : 8 ≤ len := Nat.le_trans (by decide) hlen
  cases addr with
  | unspec => exact absurd rfl h
  | inet a => exact ⟨_, torAddrToStr_inet a hlen hmax false⟩
  | inet6 a =>
    have hfamily : (TorAddr.inet6 a).family ≠ .unspec := by simp [TorAddr.family]
    obtain ⟨text, htext⟩ := torInetNtop_isSome hfamily hlen hmax
    refine ⟨text, ?_⟩
    unfold torAddrToStr
    dsimp only
    rw [if_neg (by simp only [Bool.false_eq_true, if_false]; omega), if_neg Bool.false_ne_true,
      htext]

theorem noSpace_fmtAndDecorateAddr (addr : TorAddr) :
    ∀ y ∈ fmtAndDecorateAddr addr, isSpace y = false := by
  cases addr with
  | unspec => decide +kernel
  | inet a =>
    have hquad := quad_dottedQuad (octet_lt a 24) (octet_lt a 16) (octet_lt a 8) (octet_lt a 0)
    rw [fmtAndDecorateAddr_inet]
    exact fun y hy => isSpace_of_addrChar (hquad.addrChar y hy)
  | inet6 a =>
    rw [fmtAndDecorateAddr_inet6, List.forall_mem_cons, List.forall_mem_append]
    refine ⟨by decide, fun y hy => ?_, by decide +kernel⟩
    exact isSpace_of_addrChar ((ipv6Text_in6Text a).addrChar y hy)

theorem torAddrParseImpl_fmt (h : addr ≠ .unspec) (allowIpv6WithoutBrackets : Bool) :
    torAddrParseImpl (fmtAndDecorateAddr addr) allowIpv6WithoutBrackets = .ok addr := by
  cases addr with
  | unspec => exact absurd rfl h
  | inet a =>
    have hread := torInetAton_dottedQuad (octet_lt a 24) (octet_lt a 16) (octet_lt a 8)
      (octet_lt a 0)
    have hquad := quad_dottedQuad (octet_lt a 24) (octet_lt a 16) (octet_lt a 8) (octet_lt a 0)
    rw [ofOctets_octet] at hread
    have hhead : (dottedQuad (octet a 24) (octet a 16) (octet a 8) (octet a 0)).head? ≠
        some 91 := by
      intro hhead
      have hchar := hquad.addrChar 91 (List.mem_of_head? hhead)
      exact absurd hchar (by unfold IsAddrChar; decide)
    have hnot (text : Bytes) : (if allowIpv6WithoutBrackets = true then torInetPton .inet6 text
        else .error .badParse) ≠ .error .assertion := by
      split
      · exact torInetPton_noAssertion text
      · simp
    rw [fmtAndDecorateAddr_inet]
    unfold torAddrParseImpl
    simp only [hhead, false_and, if_false, false_or, if_neg (hnot _)]
    simp only [torInetPton, hread]
  | inet6 a =>
    have htext := torInet6Pton_of_text (ipv6Text_in6Text a)
    have hlast : (91 :: (in6Text a ++ [93]))[(91 :: (in6Text a ++ [93])).length - 1]? =
        some (93 : UInt8) := by
      simp
    have hinside : ((91 :: (in6Text a ++ [93])).drop 1).take
        ((91 :: (in6Text a ++ [93])).length - 2) = in6Text a := by
      simp
    rw [fmtAndDecorateAddr_inet6]
    unfold torAddrParseImpl
    rw [if_pos (.inl ⟨rfl, hlast⟩), if_pos (.inl ⟨rfl, hlast⟩), if_pos ⟨rfl, hlast⟩, hinside]
    simp only [torInetPton, htext, Except.map, in6OfWords_in6Words]

/-! ### No address without its port -/

theorem torInet6Pton_bracket (s : Bytes) : torInet6Pton (91 :: s) = .error .badParse := by
  rcases torInet6Pton_cases (91 :: s) with ⟨words, -, htext⟩ | hrefused
  · exact absurd (htext.addrChar 91 (.head _)) (by unfold IsAddrChar; decide)
  · exact hrefused

theorem readQuad_digits {digits rest : Bytes} (h : ∀ y ∈ digits, isDigit y = true) :
    readQuad (digits ++ 46 :: rest) = .error .badParse := by
  have htake : (digits ++ 46 :: rest).takeWhile (· ≠ 46) = digits := by
    apply Library.Scanner.takeWhile_until
    · intro y hy
      simpa using (isDigit_ne (h y hy)).2
    · simp
  have hhead : (skipDigits digits.reverse).head? ≠ some 58 := by
    intro hhead
    have hmem := (skipDigits_suffix digits.reverse).mem (List.mem_of_head? hhead)
    exact (isDigit_ne (h 58 (List.mem_reverse.mp hmem))).1 rfl
  unfold readQuad
  rw [htake, if_pos hhead]

/-- What begins with a number and a dot is no IPv6 address. -/
theorem torInet6Pton_digits {digits rest : Bytes} (h : ∀ y ∈ digits, isDigit y = true) :
    torInet6Pton (digits ++ 46 :: rest) = .error .badParse := by
  unfold torInet6Pton
  rw [readQuad_digits h]
  split_ifs with hdangling hhead hmem
  · rfl
  · rfl
  · rfl
  · exact absurd (List.mem_append_right _ (.head _)) hmem

theorem torInet6Pton_fmt (h : addr ≠ .unspec) (rest : Bytes) :
    torInet6Pton (fmtAndDecorateAddr addr ++ rest) = .error .badParse := by
  cases addr with
  | unspec => exact absurd rfl h
  | inet a =>
    rw [fmtAndDecorateAddr_inet, dottedQuad]
    simp only [List.append_assoc, List.cons_append]
    exact torInet6Pton_digits (decimalString_digits _)
  | inet6 a =>
    rw [fmtAndDecorateAddr_inet6]
    exact torInet6Pton_bracket _

/-! ### The port -/

theorem last_decimalString (before : Bytes) (port : ℕ) :
    (before ++ 58 :: decimalString port)[(before ++ 58 :: decimalString port).length - 1]? ≠
      some 93 := by
  have hne := (SharedRandom.decimalString_isWord port).nonempty
  rw [← List.getLast?_eq_getElem?, List.getLast?_append_cons, List.getLast?_cons,
    List.getLast?_eq_some_getLast hne, Option.getD_some]
  intro h
  have hdigit := decimalString_digits port _ (List.getLast_mem hne)
  rw [Option.some.inj h] at hdigit
  exact absurd hdigit (by decide)

theorem torAddrPortSplit_port (hlow : 1 ≤ port) (hhigh : port ≤ 65535)
    (h6 : torInet6Pton (before ++ 58 :: decimalString port) = .error .badParse) :
    torAddrPortSplit (before ++ 58 :: decimalString port) = .ok (before, port) := by
  have hcolon : (58 : UInt8) ∉ decimalString port := fun hmem =>
    absurd (decimalString_digits port 58 hmem) (by decide)
  have hport : torParseLong (decimalString port) 1 65535 = some (port : ℤ) := by
    have hlong : longString (port : ℤ) = decimalString port := by
      rw [longString, if_neg (by omega), Int.natAbs_natCast]
    rw [← hlong]
    exact torParseLong_longString (by omega) (by omega)
  have hbrackets := last_decimalString before port
  have hparse : torAddrParse (before ++ 58 :: decimalString port) = .error .badParse ∨
      ∃ a, torAddrParse (before ++ 58 :: decimalString port) = .ok (.inet a) := by
    unfold torAddrParse torAddrParseImpl
    simp only [hbrackets, and_false, if_false, false_or, if_true, torInetPton, h6, Except.map]
    cases torInetAton (before ++ 58 :: decimalString port) with
    | none => exact .inl rfl
    | some a => exact .inr ⟨a, rfl⟩
  unfold torAddrPortSplit
  rw [strrchr_eq hcolon]
  rcases hparse with hparse | ⟨a, hparse⟩
  · rw [hparse]
    dsimp only
    rw [hport]
    rfl
  · rw [hparse]
    dsimp only
    rw [hport]
    rfl

theorem torAddrPortParse_fmt (h : addr ≠ .unspec) (hlow : 1 ≤ port) (hhigh : port ≤ 65535)
    (defaultPort : ℤ) :
    torAddrPortParse (fmtAndDecorateAddr addr ++ 58 :: decimalString port) defaultPort =
      .ok (addr, port) := by
  have hne : port ≠ 0 := Nat.one_le_iff_ne_zero.mp hlow
  unfold torAddrPortParse
  rw [torAddrPortSplit_port hlow hhigh (torInet6Pton_fmt h _)]
  simp only [bind, Except.bind, hne, false_and, if_false, decide_false, torAddrParseImpl_fmt h]
  rfl

end RoundTrip

end TorDaemon.Net
