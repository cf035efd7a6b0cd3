import TorDaemon.Library.FixedBuffer
import TorDaemon.SharedRandom.DiskRoundTrip

/-! Base16, base32 and base64 between buffers (`binascii.c`). An assertion that fails, or a read
or a write outside of a buffer, is `none`. -/
namespace TorDaemon.Encoding
open Library.NetworkOrder Library.FixedBuffer Keypin
open SharedRandom (ascii hexDigit hexDecodeDigit)

def ceilDiv (a b : ℕ) : ℕ := (a + (b - 1)) / b

/-- What a function returns: -1, or a number, with what is in the buffer then. -/
inductive Returned
  | error
  | ok (n : ℤ) (dest : Bytes)
  deriving DecidableEq

section Base16

def base16EncodeLoop (destlen : ℕ) : Bytes → Bytes → Option Bytes
  | [], written => some written
  | b :: src, written =>
    (putAll destlen written [hexDigit (b >>> 4), hexDigit (b &&& 15)]).bind
      (base16EncodeLoop destlen src)

/-- `base16_encode`, with what is in the buffer then. -/
def base16Encode (destlen : ℕ) (src : Bytes) : Option Bytes :=
  if src.length < sizeTCeiling / 2 - 1 ∧ src.length * 2 + 1 ≤ destlen ∧ destlen < sizeTCeiling then do
    let written ← base16EncodeLoop destlen src []
    let written ← put destlen written 0
    return contents destlen 0 written
  else none

/-- The inner `none` is a character that is no digit. -/
def base16DecodeLoop (destlen : ℕ) : Bytes → Bytes → Option (Option Bytes)
  | [], written => some (some written)
  | [_], _ => none
  | a :: b :: src, written =>
    match hexDecodeDigit a, hexDecodeDigit b with
    | some v1, some v2 => (put destlen written (v1 <<< 4 ||| v2)).bind (base16DecodeLoop destlen src)
    | _, _ => some none

def base16Decode (destlen : ℕ) (src : Bytes) : Option Returned :=
  if src.length % 2 ≠ 0 then some .error
  else if destlen < src.length / 2 ∨ intMax < destlen then some .error
  else do
    match ← base16DecodeLoop destlen src [] with
    | none => return .error
    | some written =>
      if written.length ≤ destlen then return .ok written.length (contents destlen 0 written)
      else none

end Base16

section Base32

def base32Chars : Bytes := ascii "abcdefghijklmnopqrstuvwxyz234567"

def base32EncodedSize (srclen : ℕ) : Option ℕ :=
  let enclen := ceilDiv (srclen * 8) 5 + 1
  if srclen < sizeTCeiling / 8 ∧ enclen < intMax ∧ srclen < enclen then some enclen else none

/-- The byte after the one at the index, or 0 at the end. -/
def nextByte (src : Bytes) (idx : ℕ) : Option UInt8 :=
  if idx + 1 < src.length then src[idx + 1]? else some 0

/-- The character for the five bits that begin at the bit. -/
def base32Char (src : Bytes) (bit : ℕ) : Option UInt8 := do
  let idx := bit / 8
  let hi ← src[idx]?
  let lo ← nextByte src idx
  let v := hi.toNat <<< 8 + lo.toNat
  base32Chars[(v >>> (11 - bit % 8)) &&& 0x1F]?

def base32EncodeLoop (destlen : ℕ) (src : Bytes) (written : Bytes) (i : ℕ) : Option Bytes := do
  let c ← base32Char src (5 * i)
  put destlen written c

/-- `base32_encode`, with what is in the buffer then. -/
def base32Encode (destlen : ℕ) (src : Bytes) : Option Bytes := do
  let size ← base32EncodedSize src.length
  if size ≤ destlen ∧ destlen < sizeTCeiling then
    let written ← (List.range (ceilDiv (src.length * 8) 5)).foldlM (base32EncodeLoop destlen src) []
    let written ← put destlen written 0
    return contents destlen 0 written
  else none

/-- The five bits of a character, in either case. -/
def base32Value (c : UInt8) : Option UInt8 :=
  if 0x60 < c ∧ c < 0x7B then some (c - 0x61)
  else if 0x31 < c ∧ c < 0x38 then some (c - 0x18)
  else if 0x40 < c ∧ c < 0x5B then some (c - 0x41)
  else none

/-- The byte that begins at the bit: five cases. -/
def base32Byte (tmp : Bytes) (bit : ℕ) : Option UInt8 := do
  let t0 ← tmp[bit / 5]?
  let t1 ← tmp[bit / 5 + 1]?
  match bit % 40 with
  | 0 => return t0 <<< 3 + t1 >>> 2
  | 8 => let t2 ← tmp[bit / 5 + 2]?; return t0 <<< 6 + t1 <<< 1 + t2 >>> 4
  | 16 => return t0 <<< 4 + t1 >>> 1
  | 24 => let t2 ← tmp[bit / 5 + 2]?; return t0 <<< 7 + t1 <<< 2 + t2 >>> 3
  | 32 => return t0 <<< 5 + t1
  | _ => none

/-- The index of the buffer is an `unsigned int`. -/
def base32DecodeLoop (tmp : Bytes) (dest : Bytes) (i : ℕ) : Option Bytes := do
  let b ← base32Byte tmp (8 * i)
  if i % 2 ^ 32 < dest.length then return dest.set (i % 2 ^ 32) b else none

def base32Decode (destlen : ℕ) (src : Bytes) : Option Returned :=
  let nbits := src.length * 5 / 8 * 8
  if src.length < sizeTCeiling / 5 ∧ nbits / 8 ≤ destlen ∧ destlen < sizeTCeiling then
    match src.mapM base32Value with
    | none => some .error
    | some tmp => do
      let dest ← (List.range (nbits / 8)).foldlM (base32DecodeLoop tmp) (List.replicate destlen 0)
      return .ok (Int.bmod (nbits / 8 : ℕ) (2 ^ 32)) dest
  else none

end Base32

section Base64

/-- `BASE64_OPENSSL_LINELEN` -/
def linelenMax : ℕ := 64

def base64EncodeSize (srclen : ℕ) (multiline : Bool) : Option ℕ :=
  let enclen := ceilDiv srclen 3 * 4
  let enclen := if multiline then enclen + ceilDiv enclen linelenMax else enclen
  if srclen < intMax ∧ ceilDiv srclen 3 < intMax / 4 ∧ enclen < intMax ∧
      (enclen = 0 ∨ srclen < enclen) then some enclen
  else none

/-- What is written, and the length of its last line. -/
structure Line where
  linelen : ℕ
  written : Bytes

def encodeChar (destlen : ℕ) (multiline : Bool) (d : Line) (ch : UInt8) : Option Line :=
  (put destlen d.written ch).bind fun written =>
    if multiline then
      if (d.linelen + 1) % linelenMax = 0 then (put destlen written 10).map fun written => ⟨0, written⟩
      else some ⟨d.linelen + 1, written⟩
    else some ⟨d.linelen, written⟩

def encodeChars (destlen : ℕ) (multiline : Bool) (d : Line) (chars : Bytes) : Option Line :=
  chars.foldlM (encodeChar destlen multiline) d

structure EncodeState where
  n : ℕ
  nIdx : ℕ
  line : Line

section
variable (destlen : ℕ)

/-- One round of the loop over the bytes. -/
def encodeByte (multiline : Bool) (st : EncodeState) (b : UInt8) : Option EncodeState :=
  let n := st.n <<< 8 ||| b.toNat
  if st.nIdx + 1 = 3 then
    (encodeChars destlen multiline st.line [encodeN n 0, encodeN n 1, encodeN n 2, encodeN n 3]).map
      fun line => ⟨0, 0, line⟩
  else some ⟨n, st.nIdx + 1, st.line⟩

/-- The bytes left over at the end. -/
def encodeRest (multiline : Bool) (st : EncodeState) : Option Line :=
  if st.nIdx = 1 then
    let n := st.n <<< 4
    encodeChars destlen multiline st.line [encodeN n 2, encodeN n 3, encodePad, encodePad]
  else if st.nIdx = 2 then
    let n := st.n <<< 2
    encodeChars destlen multiline st.line [encodeN n 1, encodeN n 2, encodeN n 3, encodePad]
  else some st.line

/-- The last line is ended too. -/
def endLine (multiline : Bool) (d : Line) : Option Bytes :=
  if multiline ∧ d.linelen ≠ 0 then put destlen d.written 10 else some d.written

def base64Encode (src : Bytes) (multiline : Bool) : Option Returned := do
  let enclen ← base64EncodeSize src.length multiline
  if destlen < enclen + 1 ∨ sizeTCeiling < destlen ∨ intMax < enclen then return .error
  else
    let st ← src.foldlM (encodeByte destlen multiline) ⟨0, 0, ⟨0, []⟩⟩
    let line ← encodeRest destlen multiline st
    let written ← endLine destlen multiline line
    if written.length = enclen then
      let written ← put destlen written 0
      return .ok enclen (contents destlen 0 written)
    else none

/-- `base64_encode_nopad`: the text is moved together in its buffer. -/
def base64EncodeNopad (src : Bytes) : Option Returned := do
  match ← base64Encode destlen src false with
  | .error => return .error
  | .ok n dest =>
    if n ≤ 0 then return .ok n dest
    else if n < destlen ∧ dest[n.toNat]? = some 0 then
      let out := (dest.takeWhile (· ≠ 0)).filter fun c => !(c == encodePad || c == 10)
      if out.length ≤ intMax then return .ok out.length (out ++ 0 :: dest.drop (out.length + 1))
      else none
    else none

end

/-- The loop of `base64_decode`: the accumulator, its length and what is written. The inner
`none` is -1. -/
def base64DecodeLoop (destlen : ℕ) : Bytes → ℕ → ℕ → Bytes → Option (Option (ℕ × ℕ × Bytes))
  | [], n, nIdx, dest => some (some (n, nIdx, dest))
  | c :: src, n, nIdx, dest =>
    match base64DecodeTable c with
    | .invalid => some none
    | .space => base64DecodeLoop destlen src n nIdx dest
    | .pad => some (some (n, nIdx, dest))
    | .value v =>
      let n := n <<< 6 ||| v
      if nIdx + 1 = 4 then
        if destlen < 3 ∨ destlen - 3 < dest.length then some none
        else (putAll destlen dest
            [UInt8.ofNat (n >>> 16), UInt8.ofNat (n >>> 8 &&& 0xff), UInt8.ofNat (n &&& 0xff)]).bind
          (base64DecodeLoop destlen src 0 0)
      else base64DecodeLoop destlen src n (nIdx + 1) dest

/-- The bits left over at the end. -/
def base64DecodeRest (destlen n nIdx : ℕ) (dest : Bytes) : Option (Option Bytes) :=
  if nIdx = 1 then some none
  else if nIdx = 2 then
    if destlen < 1 ∨ destlen - 1 < dest.length then some none
    else (put destlen dest (UInt8.ofNat (n >>> 4))).map some
  else if nIdx = 3 then
    if destlen < 2 ∨ destlen - 2 < dest.length then some none
    else (putAll destlen dest [UInt8.ofNat (n >>> 10), UInt8.ofNat (n >>> 2)]).map some
  else some (some dest)

def base64Decode (destlen : ℕ) (src : Bytes) : Option Returned :=
  if intMax < destlen then some .error
  else do
    match ← base64DecodeLoop destlen src 0 0 [] with
    | none => return .error
    | some (n, nIdx, dest) =>
      match ← base64DecodeRest destlen n nIdx dest with
      | none => return .error
      | some dest =>
        if dest.length ≤ destlen then return .ok dest.length (contents destlen 0 dest)
        else none

end Base64

end TorDaemon.Encoding
