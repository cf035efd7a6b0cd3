import TorDaemon.Encoding.Binascii
import TorDaemon.Policies.Addresses

/-! The text of IP addresses (`inaddr.c`), and the names for reverse lookups (`address.c`). A
string ends where its list does. -/
namespace TorDaemon.Net
open Library.NetworkOrder Encoding
open Policies (Family In6Addr TorAddr)
open SharedRandom (ascii decimal decimalString hexDecodeDigit isDigit strcaseeq strcasecmpendEq)

/-- Why there is no result: the text is refused with 0, the family with -1, or an assertion
fails. -/
inductive Stop
  | badParse
  | badFamily
  | assertion
  deriving DecidableEq

section Text

/-- `TOR_ISXDIGIT` -/
def isXDigit (c : UInt8) : Bool := (hexDecodeDigit c).isSome

def hexValue (digits : Bytes) : ℕ :=
  digits.foldl (fun n c => 16 * n + ((hexDecodeDigit c).getD 0).toNat) 0

/-- `%x` -/
def hexString (n : ℕ) : Bytes := (Nat.toDigits 16 n).map fun c => c.toUInt8

/-- `tor_snprintf` of a text. -/
def torSnprintf (size : ℕ) (text : Bytes) : Option Bytes :=
  if size ≤ sizeTCeiling ∧ text.length < size then some text else none

def longMax : ℕ := 2 ^ 63 - 1

/-- `strtol` in base 16 of text that begins with a digit: the value, and what follows it. -/
def strtolHex (s : Bytes) : ℕ × Bytes :=
  let digits :=
    match s with
    | 48 :: x :: d :: rest => if (x = 120 ∨ x = 88) ∧ isXDigit d then d :: rest else s
    | _ => s
  (min (hexValue (digits.takeWhile isXDigit)) longMax, digits.dropWhile isXDigit)

/-- `scan_unsigned` of at most three digits. -/
def scanUnsigned (buf : Bytes) : Option (ℕ × Bytes) :=
  let digits := (buf.takeWhile isDigit).take 3
  if digits = [] then none else some (decimal digits, buf.drop digits.length)

def scanDot : Bytes → Option Bytes
  | 46 :: buf => some buf
  | _ => none

/-- `tor_sscanf` with `%3u.%3u.%3u.%3u%c`, when it returns 4. -/
def scanQuad (buf : Bytes) : Option (ℕ × ℕ × ℕ × ℕ) := do
  let (a, buf) ← scanUnsigned buf
  let (b, buf) ← scanUnsigned (← scanDot buf)
  let (c, buf) ← scanUnsigned (← scanDot buf)
  let (d, buf) ← scanUnsigned (← scanDot buf)
  if buf = [] then some (a, b, c, d) else none

end Text

section Ipv4

/-- The four bytes of an address, in host order. -/
def ofOctets (a b c d : ℕ) : BitVec 32 := BitVec.ofNat 32 (a <<< 24 ||| b <<< 16 ||| c <<< 8 ||| d)

def torInetAton (str : Bytes) : Option (BitVec 32) :=
  match scanQuad str with
  | none => none
  | some (a, b, c, d) =>
    if (str.splitOn 46).any fun octet => 1 < octet.length ∧ octet.head? = some 48 then none
    else if 255 < a ∨ 255 < b ∨ 255 < c ∨ 255 < d then none
    else some (ofOctets a b c d)

/-- `%d.%d.%d.%d` -/
def dottedQuad (a b c d : ℕ) : Bytes :=
  decimalString a ++ 46 :: decimalString b ++ 46 :: decimalString c ++ 46 :: decimalString d

/-- The byte above so many bits. -/
def octet (a : BitVec 32) (k : ℕ) : ℕ := (a >>> k &&& 0xff).toNat

def torInetNtoa (a : BitVec 32) (bufLen : ℕ) : Option Bytes :=
  torSnprintf bufLen (dottedQuad (octet a 24) (octet a 16) (octet a 8) (octet a 0))

end Ipv4

section Ntop

/-- `s6_addr[i]` -/
def s6Addr (addr : In6Addr) (i : ℕ) : UInt8 := addr.val.getD i 0

def in6Words (addr : In6Addr) : List UInt16 :=
  (List.range 8).map fun i => (s6Addr addr (2 * i)).toUInt16 <<< 8 + (s6Addr addr (2 * i + 1)).toUInt16

/-- The longest run of zeros, and where it begins. -/
structure Gap where
  pos : ℕ
  len : ℕ

/-- The loop over the words: those from `i` on are left. -/
def longestGap (i : ℕ) (longest : Gap) : List UInt16 → Gap
  | [] => longest
  | w :: words =>
    if w = 0 then
      let len := 1 + (words.takeWhile (· = 0)).length
      longestGap (i + len) (if longest.len < len then ⟨i, len⟩ else longest)
        (words.dropWhile (· = 0))
    else longestGap (i + 1) longest words
termination_by words => words.length
decreasing_by
  · exact Nat.lt_succ_of_le (List.length_dropWhile_le ..)
  · exact Nat.lt_succ_self _

/-- A run of one zero is no gap. -/
def gapPosition (words : List UInt16) : Option ℕ :=
  let longest := longestGap 0 ⟨0, 0⟩ words
  if longest.len ≤ 1 then none else some longest.pos

/-- The loop that writes the words from `i` on. -/
def putWords (gap : Option ℕ) (i : ℕ) : List UInt16 → Bytes
  | [] => []
  | w :: words =>
    if w = 0 ∧ gap = some i then
      (if i = 0 then [58] else []) ++ 58 :: putWords gap
        (i + (1 + (words.takeWhile (· = 0)).length)) (words.dropWhile (· = 0))
    else hexString w.toNat ++ ((if i ≠ 7 then [58] else []) ++ putWords gap (i + 1) words)
termination_by words => words.length
decreasing_by
  · exact Nat.lt_succ_of_le (List.length_dropWhile_le ..)
  · exact Nat.lt_succ_self _

def in6Quad (addr : In6Addr) : Bytes :=
  dottedQuad (s6Addr addr 12).toNat (s6Addr addr 13).toNat (s6Addr addr 14).toNat
    (s6Addr addr 15).toNat

/-- The text of an IPv6 address, of which some end with an IPv4 address. -/
def in6Text (addr : In6Addr) : Bytes :=
  let words := in6Words addr
  let word := fun i => words.getD i 0
  if word 0 = 0 ∧ word 1 = 0 ∧ word 2 = 0 ∧ word 3 = 0 ∧ word 4 = 0 ∧
      (word 5 = 0 ∧ word 6 ≠ 0 ∧ word 7 ≠ 0 ∨ word 5 = 0xffff) then
    if word 5 = 0 then 58 :: 58 :: in6Quad addr
    else 58 :: 58 :: hexString (word 5).toNat ++ 58 :: in6Quad addr
  else putWords (gapPosition words) 0 words

def torInetNtop (addr : TorAddr) (len : ℕ) : Option Bytes :=
  match addr with
  | .unspec => none
  | .inet a => torInetNtoa a len
  | .inet6 a => if len < (in6Text a).length + 1 then none else some (in6Text a)

end Ntop

section Pton

/-- The loop over the words: the text that is left, the words so far, and the place of the gap.
The end of the words is given by the length `eow` of the text from there on. -/
structure WordsState where
  src : Bytes
  i : ℕ
  gapPos : Option ℕ
  setWords : ℕ
  words : List UInt16

/-- How much is read when `next` is left: the terminator counts as the end of the words. -/
def groupLen (eow : ℕ) (src next : Bytes) : ℕ :=
  if next = [] then src.length - eow else src.length - next.length

/-- A round of the loop at a hex digit. -/
def readGroup (eow : ℕ) (st : WordsState) : Except Stop WordsState :=
  let (r, next) := strtolHex st.src
  let len := groupLen eow st.src next
  if next.length = st.src.length then .error .badParse
  else if 4 < len then .error .badParse
  else if 1 < len ∧ !((st.src[1]?).any isXDigit) then .error .badParse
  else if 65536 ≤ r then .error .assertion
  else if next.head? ≠ some 58 ∧ next.length ≠ eow then .error .badParse
  else .ok ⟨next.tail, st.i + 1, st.gapPos, st.setWords + 1, st.words.set st.i (UInt16.ofNat r)⟩

/-- One round of the loop. -/
def readWord (eow : ℕ) (st : WordsState) : Except Stop WordsState :=
  if 7 < st.i then .error .badParse
  else
    match st.src with
    | [] => .error .badParse
    | c :: rest =>
      if isXDigit c then readGroup eow st
      else if c = 58 ∧ 0 < st.i ∧ st.gapPos = none then
        .ok { st with gapPos := some st.i, src := rest }
      else if c = 58 ∧ st.i = 0 ∧ eow < rest.length ∧ rest.head? = some 58 ∧ st.gapPos = none then
        .ok { st with gapPos := some st.i, src := rest.tail }
      else .error .badParse

theorem strtolHex_length (s : Bytes) : (strtolHex s).2.length ≤ s.length := by
  refine (List.length_dropWhile_le ..).trans ?_
  split
  · split_ifs
    · simp only [List.length_cons]
      omega
    · exact Nat.le_refl _
  · exact Nat.le_refl _

theorem readGroup_length {eow : ℕ} {st st' : WordsState} (h : readGroup eow st = .ok st') :
    st'.src.length < st.src.length := by
  have hle := strtolHex_length st.src
  unfold readGroup at h
  dsimp only at h
  split_ifs at h with hsame
  obtain rfl := Except.ok.inj h
  rw [List.length_tail]
  omega

theorem readWord_length {eow : ℕ} {st st' : WordsState} (h : readWord eow st = .ok st') :
    st'.src.length < st.src.length := by
  unfold readWord at h
  split_ifs at h
  split at h
  · exact absurd h (by simp)
  · rename_i c rest hsrc
    rw [hsrc, List.length_cons]
    split_ifs at h
    · rw [← List.length_cons (a := c), ← hsrc]
      exact readGroup_length h
    · obtain rfl := Except.ok.inj h
      exact Nat.lt_succ_self _
    · obtain rfl := Except.ok.inj h
      rw [List.length_tail]
      omega

def readWords (eow : ℕ) (st : WordsState) : Except Stop WordsState :=
  if eow < st.src.length then
    match _h : readWord eow st with
    | .error stop => .error stop
    | .ok st' => readWords eow st'
  else .ok st
termination_by st.src.length
decreasing_by exact readWord_length _h

/-- `memmove` within a list. -/
def memmove {α : Type} (l : List α) (dst src n : ℕ) : List α :=
  l.take dst ++ (l.drop src).take n ++ l.drop (dst + n)

def memset {α : Type} (l : List α) (pos : ℕ) (a : α) (n : ℕ) : List α :=
  l.take pos ++ List.replicate n a ++ l.drop (pos + n)

/-- The words that were read, with the gap filled. -/
def fillGap (hasQuad : Bool) (st : WordsState) : Except Stop (List UInt16) :=
  if 8 < st.setWords ∨ st.setWords = 8 ∧ st.gapPos ≠ none ∨ st.setWords < 8 ∧ st.gapPos = none then
    .error .badParse
  else
    match st.gapPos with
    | none => .ok st.words
    | some gapPos =>
      let nToMove : ℤ := st.setWords - (if hasQuad then 2 else 0) - gapPos
      let gapLen := 8 - st.setWords
      if nToMove < 0 then .error .assertion
      else .ok (memset (memmove st.words (gapPos + gapLen) gapPos nToMove.toNat) gapPos 0 gapLen)

/-- Backwards over digits, in the reversed text before the first dot. -/
def skipDigits : Bytes → Bytes
  | c :: c' :: before => if isDigit c then skipDigits (c' :: before) else c :: c' :: before
  | before => before

/-- Where the words end, and the last two of them, when there is a dot. -/
def readQuad (src : Bytes) : Except Stop (ℕ × ℕ × ℕ) :=
  let upto := skipDigits (src.takeWhile (· ≠ 46)).reverse
  if upto.head? ≠ some 58 then .error .badParse
  else
    match scanQuad (src.drop upto.length) with
    | none => .error .badParse
    | some (byte1, byte2, byte3, byte4) =>
      if 255 < byte1 ∨ 255 < byte2 ∨ 255 < byte3 ∨ 255 < byte4 then .error .badParse
      else .ok ((src.drop upto.length).length, byte1 <<< 8 ||| byte2, byte3 <<< 8 ||| byte4)

/-- `s6_addr` from the words -/
def in6OfWords (words : List UInt16) : In6Addr :=
  ⟨(List.range 8).flatMap fun i =>
    [((words.getD i 0) >>> 8).toUInt8, ((words.getD i 0) &&& 0xff).toUInt8], by simp⟩

/-- The words before they are set. -/
def unsetWords : List UInt16 := List.replicate 8 0xf8f8

/-- A needless colon at the end. -/
def Dangling (src : Bytes) : Prop :=
  2 < src.length ∧ src[src.length - 1]? = some 58 ∧ src[src.length - 2]? ≠ some 58

instance (src : Bytes) : Decidable (Dangling src) := inferInstanceAs (Decidable (_ ∧ _))

def torInet6Pton (src : Bytes) : Except Stop (List UInt16) :=
  if Dangling src then .error .badParse
  else if src.head? = some 46 then .error .badParse
  else if 46 ∈ src then do
    let (eow, word6, word7) ← readQuad src
    let words := (unsetWords.set 6 (UInt16.ofNat word6)).set 7 (UInt16.ofNat word7)
    fillGap true (← readWords eow ⟨src, 0, none, 2, words⟩)
  else do fillGap false (← readWords 0 ⟨src, 0, none, 0, unsetWords⟩)

def torInetPton (af : Family) (src : Bytes) : Except Stop TorAddr :=
  match af with
  | .inet =>
    match torInetAton src with
    | none => .error .badParse
    | some a => .ok (.inet a)
  | .inet6 => (torInet6Pton src).map fun words => .inet6 (in6OfWords words)
  | .unspec => .error .badFamily

end Pton

section ReverseLookup

def ntoaBufLen : ℕ := 16

def reverseLookupNameBufLen : ℕ := 73

def hexDigitLower (n : UInt8) : UInt8 := (ascii "0123456789abcdef").getD n.toNat 0

/-- Both digits of a byte, the low one first. -/
def byteNibbles (byte : UInt8) : Bytes :=
  [hexDigitLower (byte &&& 0x0f), 46, hexDigitLower (byte >>> 4), 46]

def torAddrToPTRName (outlen : ℕ) (addr : TorAddr) : Option Bytes :=
  match addr with
  | .inet a =>
    torSnprintf outlen
      (dottedQuad (octet a 0) (octet a 8) (octet a 16) (octet a 24) ++ ascii ".in-addr.arpa")
  | .inet6 a =>
    if outlen < reverseLookupNameBufLen then none
    else some (a.val.reverse.flatMap byteNibbles ++ ascii "ip6.arpa")
  | .unspec => none

def reverseBytes (a : BitVec 32) : BitVec 32 :=
  (a &&& 0x000000ff) <<< 24 ||| (a &&& 0x0000ff00) <<< 8 ||| (a &&& 0x00ff0000) >>> 8 |||
    (a &&& 0xff000000) >>> 24

/-- So many bytes, the last one first and of each the low digit first. -/
def readNibbles : ℕ → Bytes → Bytes → Option (Bytes × Bytes)
  | 0, cp, bytes => some (bytes, cp)
  | n + 1, c0 :: 46 :: c1 :: 46 :: cp, bytes =>
    match hexDecodeDigit c0, hexDecodeDigit c1 with
    | some n0, some n1 => readNibbles n cp ((n0 ||| n1 <<< 4) :: bytes)
    | _, _ => none
  | _, _, _ => none

def torAddrParseImpl (src : Bytes) (allowIpv6WithoutBrackets : Bool) : Except Stop TorAddr :=
  let brackets := src.head? = some 91 ∧ src[src.length - 1]? = some 93
  let src := if brackets then (src.drop 1).take (src.length - 2) else src
  let inet6 := if brackets ∨ allowIpv6WithoutBrackets then torInetPton .inet6 src
    else .error .badParse
  if brackets ∨ inet6 = .error .assertion then inet6
  else
    match torInetPton .inet src with
    | .ok a => .ok a
    | .error _ => inet6

def torAddrParse (src : Bytes) : Except Stop TorAddr := torAddrParseImpl src true

/-- What `tor_addr_parse_PTR_name` returns: -1, 0 or 1. -/
inductive ParsedName
  | malformed
  | unrecognized
  | parsed (addr : TorAddr)
  deriving DecidableEq

def parseInAddrArpa (address : Bytes) (family : Family) : ParsedName :=
  let len := address.length - (ascii ".in-addr.arpa").length
  if family = .inet6 then .malformed
  else if ntoaBufLen ≤ len then .malformed
  else
    match torInetAton (address.take len) with
    | none => .malformed
    | some a => .parsed (.inet (reverseBytes a))

def parseIp6Arpa (address : Bytes) (family : Family) : ParsedName :=
  if family = .inet then .malformed
  else
    match readNibbles 16 address [] with
    | none => .malformed
    | some (bytes, cp) =>
      if strcaseeq cp (ascii "ip6.arpa") then
        if h : bytes.length = 16 then .parsed (.inet6 ⟨bytes, h⟩) else .malformed
      else .malformed

/-- An assertion that fails is `none`. -/
def torAddrParsePTRName (address : Bytes) (family : Family) (acceptRegular : Bool) :
    Option ParsedName :=
  if strcasecmpendEq address (ascii ".in-addr.arpa") then
    some (parseInAddrArpa address family)
  else if strcasecmpendEq address (ascii ".ip6.arpa") then
    some (parseIp6Arpa address family)
  else if acceptRegular then
    match torAddrParse address with
    | .error .assertion => none
    | .error _ => some .unrecognized
    | .ok a => if a.family ≠ family ∧ family ≠ .unspec then some .malformed else some (.parsed a)
  else some .unrecognized

end ReverseLookup

end TorDaemon.Net
