import Mathlib.Tactic.IntervalCases
import TorDaemon.Common
import TorDaemon.Library.NetworkOrder
import TorDaemon.Library.Reachability

/-! The key-pinning tables and their journal, with base64 as the journal has it: without padding, and
read back leniently. An entry is an object, in both tables at once. -/
namespace TorDaemon.Keypin
open Library.NetworkOrder Library.Reachability

section Encode

def base64EncodeTable (v : ℕ) : UInt8 :=
  if v < 26 then UInt8.ofNat (65 + v)
  else if v < 52 then UInt8.ofNat (97 + (v - 26))
  else if v < 62 then UInt8.ofNat (48 + (v - 52))
  else if v = 62 then 43
  else 47

def encodeN (n idx : ℕ) : UInt8 := base64EncodeTable (n >>> ((3 - idx) * 6) &&& 0x3f)

/-- The accumulator of `base64_encode`, and what it has written. -/
structure Encoder where
  n : ℕ
  nIdx : ℕ
  dest : Bytes

def Encoder.next (st : Encoder) (b : UInt8) : Encoder :=
  let n := st.n <<< 8 ||| b.toNat
  if st.nIdx + 1 = 3 then
    { n := 0, nIdx := 0, dest := st.dest ++ [encodeN n 0, encodeN n 1, encodeN n 2, encodeN n 3] }
  else { n := n, nIdx := st.nIdx + 1, dest := st.dest }

def encodePad : UInt8 := 61

/-- The bytes left over at the end. -/
def Encoder.finish (st : Encoder) : Bytes :=
  if st.nIdx = 1 then
    let n := st.n <<< 4
    st.dest ++ [encodeN n 2, encodeN n 3, encodePad, encodePad]
  else if st.nIdx = 2 then
    let n := st.n <<< 2
    st.dest ++ [encodeN n 1, encodeN n 2, encodeN n 3, encodePad]
  else st.dest

/-- `base64_encode` on one line, into a buffer that is large enough. -/
def base64Encode (src : Bytes) : Bytes := (src.foldl Encoder.next ⟨0, 0, []⟩).finish

def base64EncodeNopad (src : Bytes) : Bytes :=
  (base64Encode src).filter fun c => !(c == encodePad || c == 10)

end Encode

section Decode

inductive DecodeClass
  | invalid
  | space
  | pad
  | value (v : ℕ)
  deriving DecidableEq

def base64DecodeTable (c : UInt8) : DecodeClass :=
  let c := c.toNat
  if c = 9 ∨ c = 10 ∨ c = 11 ∨ c = 13 ∨ c = 32 then .space
  else if c = 61 then .pad
  else if c = 43 then .value 62
  else if c = 47 then .value 63
  else if 48 ≤ c ∧ c ≤ 57 then .value (c - 48 + 52)
  else if 65 ≤ c ∧ c ≤ 90 then .value (c - 65)
  else if 97 ≤ c ∧ c ≤ 122 then .value (c - 97 + 26)
  else .invalid

/-- The loop of `base64_decode`: the accumulator, its length and what is written. -/
def base64DecodeLoop (destlen : ℕ) : Bytes → ℕ → ℕ → Bytes → Option (ℕ × ℕ × Bytes)
  | [], n, nIdx, dest => some (n, nIdx, dest)
  | c :: src, n, nIdx, dest =>
    match base64DecodeTable c with
    | .invalid => none
    | .space => base64DecodeLoop destlen src n nIdx dest
    | .pad => some (n, nIdx, dest)
    | .value v =>
      let n := n <<< 6 ||| v
      if nIdx + 1 = 4 then
        if destlen < 3 ∨ destlen - 3 < dest.length then none
        else base64DecodeLoop destlen src 0 0 (dest ++
          [UInt8.ofNat (n >>> 16), UInt8.ofNat (n >>> 8 &&& 0xff), UInt8.ofNat (n &&& 0xff)])
      else base64DecodeLoop destlen src n (nIdx + 1) dest

/-- The bits left over at the end. -/
def base64DecodeFinish (destlen n nIdx : ℕ) (dest : Bytes) : Option Bytes :=
  if nIdx = 1 then none
  else if nIdx = 2 then
    if destlen < 1 ∨ destlen - 1 < dest.length then none
    else some (dest ++ [UInt8.ofNat (n >>> 4)])
  else if nIdx = 3 then
    if destlen < 2 ∨ destlen - 2 < dest.length then none
    else some (dest ++ [UInt8.ofNat (n >>> 10), UInt8.ofNat (n >>> 2)])
  else some dest

/-- `base64_decode`: the bytes written, or `none` for an error. -/
def base64Decode (destlen : ℕ) (src : Bytes) : Option Bytes :=
  (base64DecodeLoop destlen src 0 0 []).bind fun (n, nIdx, dest) =>
    base64DecodeFinish destlen n nIdx dest

end Decode

section Sextets

/-- The six-bit values that stand for the bytes. -/
def sextets : Bytes → List ℕ
  | a :: b :: c :: src =>
    let n := (a.toNat * 256 + b.toNat) * 256 + c.toNat
    n / 2 ^ 18 % 64 :: n / 2 ^ 12 % 64 :: n / 2 ^ 6 % 64 :: n % 64 :: sextets src
  | [a, b] =>
    let n := (a.toNat * 256 + b.toNat) * 4
    [n / 2 ^ 12 % 64, n / 2 ^ 6 % 64, n % 64]
  | [a] =>
    let n := a.toNat * 16
    [n / 2 ^ 6 % 64, n % 64]
  | [] => []

theorem base64DecodeTable_encodeTable {v : ℕ} (hv : v < 64) :
    base64DecodeTable (base64EncodeTable v) = .value v := by
  have hall : ∀ v : Fin 64, base64DecodeTable (base64EncodeTable v) = .value v := by decide
  exact hall ⟨v, hv⟩

theorem encoded_kept {v : ℕ} (hv : v < 64) :
    !(base64EncodeTable v == encodePad || base64EncodeTable v == 10) := by
  have hall : ∀ v : Fin 64,
      !(base64EncodeTable v == encodePad || base64EncodeTable v == 10) := by decide
  exact hall ⟨v, hv⟩

theorem shiftLeft_or {x v k : ℕ} (hv : v < 2 ^ k) : x <<< k ||| v = x * 2 ^ k + v := by
  rw [← Nat.shiftLeft_add_eq_or_of_lt hv, Nat.shiftLeft_eq]

theorem encodeN_eq (n idx : ℕ) :
    encodeN n idx = base64EncodeTable (n / 2 ^ ((3 - idx) * 6) % 64) := by
  rw [encodeN, Nat.shiftRight_eq_div_pow, show 0x3f = 2 ^ 6 - 1 by rfl,
    Nat.and_two_pow_sub_one_eq_mod]

theorem sextets_lt (src : Bytes) : ∀ v ∈ sextets src, v < 64 := by
  induction src using sextets.induct with
  | case1 a b c src ih =>
    simp only [sextets, List.mem_cons]
    rintro v (rfl | rfl | rfl | rfl | hv)
    · omega
    · omega
    · omega
    · omega
    · exact ih v hv
  | case2 a b =>
    simp only [sextets, List.mem_cons, List.not_mem_nil, or_false]
    omega
  | case3 a =>
    simp only [sextets, List.mem_cons, List.not_mem_nil, or_false]
    omega
  | case4 => simp [sextets]

theorem nopad_encoded {values : List ℕ} (hlt : ∀ v ∈ values, v < 64) :
    (values.map base64EncodeTable).filter (fun c => !(c == encodePad || c == 10)) =
      values.map base64EncodeTable := by
  apply List.filter_eq_self.mpr
  intro c hc
  obtain ⟨v, hv, rfl⟩ := List.mem_map.mp hc
  exact encoded_kept (hlt v hv)

theorem encoder_first (dest : Bytes) (a : UInt8) :
    Encoder.next ⟨0, 0, dest⟩ a = ⟨a.toNat, 1, dest⟩ := by
  simp [Encoder.next]

theorem encoder_second (dest : Bytes) (a b : UInt8) :
    Encoder.next ⟨a.toNat, 1, dest⟩ b = ⟨a.toNat * 256 + b.toNat, 2, dest⟩ := by
  simp [Encoder.next, shiftLeft_or b.toNat_lt]

theorem encoder_flush (dest : Bytes) (a b c : UInt8) :
    Encoder.next ⟨a.toNat * 256 + b.toNat, 2, dest⟩ c =
      ⟨0, 0, dest ++ (sextets [a, b, c]).map base64EncodeTable⟩ := by
  simp [Encoder.next, shiftLeft_or c.toNat_lt, encodeN_eq, sextets]

/-- The padding that fills up the last four characters. -/
def pads (src : Bytes) : Bytes := List.replicate ((3 - src.length % 3) % 3) encodePad

theorem encoder_finish (dest src : Bytes) : (src.foldl Encoder.next ⟨0, 0, dest⟩).finish =
    dest ++ ((sextets src).map base64EncodeTable ++ pads src) := by
  induction src using sextets.induct generalizing dest with
  | case1 a b c src ih =>
    have hpads : pads (a :: b :: c :: src) = pads src := by
      simp only [pads, List.length_cons]
      congr 1
      omega
    rw [List.foldl_cons, List.foldl_cons, List.foldl_cons, encoder_first, encoder_second,
      encoder_flush, ih, hpads]
    simp [sextets]
  | case2 a b =>
    rw [List.foldl_cons, List.foldl_cons, List.foldl_nil, encoder_first, encoder_second]
    simp [Encoder.finish, encodeN_eq, Nat.shiftLeft_eq, sextets, pads]
  | case3 a =>
    rw [List.foldl_cons, List.foldl_nil, encoder_first]
    simp [Encoder.finish, encodeN_eq, Nat.shiftLeft_eq, sextets, pads, List.replicate]
  | case4 => simp [Encoder.finish, sextets, pads]

theorem base64Encode_eq (src : Bytes) :
    base64Encode src = (sextets src).map base64EncodeTable ++ pads src :=
  encoder_finish [] src

theorem base64EncodeNopad_eq (src : Bytes) :
    base64EncodeNopad src = (sextets src).map base64EncodeTable := by
  rw [base64EncodeNopad, base64Encode_eq, List.filter_append, nopad_encoded (sextets_lt src)]
  simp [pads]

/-- Three bytes are four values, and the bytes left over are one value more than they are. -/
theorem sextets_length (src : Bytes) : (sextets src).length = (src.length * 4 + 2) / 3 := by
  induction src using sextets.induct with
  | case1 a b c src ih =>
    simp only [sextets, List.length_cons, ih]
    omega
  | case2 a b => simp [sextets]
  | case3 a => simp [sextets]
  | case4 => simp [sextets]

theorem decodeLoop_value {destlen n nIdx v : ℕ} {src dest : Bytes} (hv : v < 64)
    (hidx : nIdx + 1 ≠ 4) : base64DecodeLoop destlen (base64EncodeTable v :: src) n nIdx dest =
      base64DecodeLoop destlen src (n * 64 + v) (nIdx + 1) dest := by
  simp only [base64DecodeLoop, base64DecodeTable_encodeTable hv, if_neg hidx,
    shiftLeft_or (show v < 2 ^ 6 from hv), Nat.reducePow]

theorem decodeLoop_flush {destlen n v : ℕ} {src dest : Bytes} (hv : v < 64)
    (hroom : dest.length + 3 ≤ destlen) :
    base64DecodeLoop destlen (base64EncodeTable v :: src) n 3 dest =
      base64DecodeLoop destlen src 0 0 (dest ++ [UInt8.ofNat ((n * 64 + v) / 65536),
        UInt8.ofNat ((n * 64 + v) / 256 % 256), UInt8.ofNat ((n * 64 + v) % 256)]) := by
  have hfits : ¬ (destlen < 3 ∨ destlen - 3 < dest.length) := by omega
  have hmask : ∀ m : ℕ, m &&& 0xff = m % 256 := fun m => Nat.and_two_pow_sub_one_eq_mod m 8
  simp only [base64DecodeLoop, base64DecodeTable_encodeTable hv, if_neg hfits, if_true,
    shiftLeft_or (show v < 2 ^ 6 from hv), Nat.reducePow, Nat.reduceAdd,
    Nat.shiftRight_eq_div_pow, hmask]

theorem ofNat_eq {n : ℕ} {b : UInt8} (h : n % 256 = b.toNat) : UInt8.ofNat n = b := by
  apply UInt8.toNat_inj.mp
  rw [UInt8.toNat_ofNat', ← h]

/-- Nothing more is decoded at the end of the text, or at the padding. -/
def Ends (tail : Bytes) : Prop :=
  ∀ destlen n nIdx dest, base64DecodeLoop destlen tail n nIdx dest = some (n, nIdx, dest)

theorem ends_nil : Ends [] := fun _ _ _ _ => rfl

theorem decode_sextets {tail : Bytes} (htail : Ends tail) (destlen : ℕ) (dest src : Bytes)
    (hroom : dest.length + src.length ≤ destlen) :
    ((base64DecodeLoop destlen ((sextets src).map base64EncodeTable ++ tail) 0 0 dest).bind
      fun (n, nIdx, dest) => base64DecodeFinish destlen n nIdx dest) = some (dest ++ src) := by
  induction src using sextets.induct generalizing dest with
  | case1 a b c src ih =>
    have ha := a.toNat_lt
    have hb := b.toNat_lt
    have hc := c.toNat_lt
    simp only [List.length_cons] at hroom
    simp only [sextets, List.map_cons, List.cons_append]
    rw [decodeLoop_value (by omega) (by omega), decodeLoop_value (by omega) (by omega),
      decodeLoop_value (by omega) (by omega), decodeLoop_flush (by omega) (by omega),
      ofNat_eq (b := a) (by omega), ofNat_eq (b := b) (by omega), ofNat_eq (b := c) (by omega),
      ih _ (by simp only [List.length_append, List.length_cons, List.length_nil]; omega)]
    simp
  | case2 a b =>
    have ha := a.toNat_lt
    have hb := b.toNat_lt
    simp only [List.length_cons, List.length_nil] at hroom
    simp only [sextets, List.map_cons, List.map_nil, List.cons_append, List.nil_append]
    rw [decodeLoop_value (by omega) (by omega), decodeLoop_value (by omega) (by omega),
      decodeLoop_value (by omega) (by omega), htail]
    have hfits : ¬ (destlen < 2 ∨ destlen - 2 < dest.length) := by omega
    simp only [Option.bind_some, base64DecodeFinish, Nat.reduceAdd,
      Nat.reduceEqDiff, if_false, if_true, if_neg hfits, Nat.shiftRight_eq_div_pow]
    rw [ofNat_eq (b := a) (by omega), ofNat_eq (b := b) (by omega)]
  | case3 a =>
    have ha := a.toNat_lt
    simp only [List.length_cons, List.length_nil] at hroom
    simp only [sextets, List.map_cons, List.map_nil, List.cons_append, List.nil_append]
    rw [decodeLoop_value (by omega) (by omega), decodeLoop_value (by omega) (by omega), htail]
    have hfits : ¬ (destlen < 1 ∨ destlen - 1 < dest.length) := by omega
    simp only [Option.bind_some, base64DecodeFinish, Nat.reduceAdd,
      Nat.reduceEqDiff, if_false, if_true, if_neg hfits, Nat.shiftRight_eq_div_pow]
    rw [ofNat_eq (b := a) (by omega)]
  | case4 => simp [sextets, htail _ _ _ _, base64DecodeFinish]

theorem base64Decode_encodeNopad {destlen : ℕ} {src : Bytes} (hroom : src.length ≤ destlen) :
    base64Decode destlen (base64EncodeNopad src) = some src := by
  have hdecode := decode_sextets ends_nil destlen [] src (by simpa using hroom)
  rw [List.append_nil] at hdecode
  rw [base64EncodeNopad_eq, base64Decode, hdecode]
  rfl

/-- So it is with the padding, of which any part may be cut off. -/
theorem base64Decode_encode {destlen : ℕ} {src tail : Bytes} (hroom : src.length ≤ destlen)
    (htail : tail <+: pads src) :
    base64Decode destlen ((sextets src).map base64EncodeTable ++ tail) = some src := by
  have hends : Ends tail := by
    obtain ⟨rest, hrest⟩ := htail
    cases tail with
    | nil => exact ends_nil
    | cons c tail =>
      intro destlen n nIdx dest
      have hc : c = encodePad := by
        have hmem : c ∈ pads src := by rw [← hrest]; simp
        exact List.eq_of_mem_replicate hmem
      have hpad : base64DecodeTable encodePad = .pad := by decide
      rw [hc, base64DecodeLoop, hpad]
  rw [base64Decode, decode_sextets hends destlen [] src (by simpa using hroom)]
  rfl

end Sextets

/-! ### The tables and their journal -/

/-- A byte string of a fixed length. -/
abbrev Digest (n : ℕ) := { bytes : Bytes // bytes.length = n }

def digestLen : ℕ := 20

def digest256Len : ℕ := 32

/-- `keypin_ent_t`, with the place where it was allocated. -/
structure KeypinEnt where
  addr : ℕ
  rsaId : Digest digestLen
  ed25519Key : Digest digest256Len
  deriving DecidableEq

section HashTable
variable {κ : Type*} [DecidableEq κ]

def htFind (key : KeypinEnt → κ) (map : List KeypinEnt) (elm : KeypinEnt) : Option KeypinEnt :=
  map.find? fun e => key e = key elm

def htInsert (map : List KeypinEnt) (elm : KeypinEnt) : List KeypinEnt := elm :: map

def htRemove (key : KeypinEnt → κ) (map : List KeypinEnt) (elm : KeypinEnt) :
    List KeypinEnt × Option KeypinEnt :=
  (map.eraseP fun e => key e = key elm, htFind key map elm)

end HashTable

structure State where
  rsaMap : List KeypinEnt
  edMap : List KeypinEnt
  nextAddr : ℕ
  /-- The bytes of the journal file. -/
  journal : Bytes
  /-- Whether `keypin_journal_fd` is open. -/
  journalFd : Bool

namespace State

/-- `tor_memdup` or `tor_malloc_zero` of an entry. -/
def alloc (s : State) (rsaId : Digest digestLen) (ed25519Key : Digest digest256Len) :
    State × KeypinEnt :=
  ({ s with nextAddr := s.nextAddr + 1 }, ⟨s.nextAddr, rsaId, ed25519Key⟩)

def addEntryToMap (s : State) (ent : KeypinEnt) : State :=
  { s with
    rsaMap := htInsert s.rsaMap ent
    edMap := htInsert s.edMap ent }

/-- The removal of an entry from both tables, each of which must give back that entry. -/
def removeEntry (s : State) (ent : KeypinEnt) : Option State := do
  let (rsaMap, t) := htRemove KeypinEnt.rsaId s.rsaMap ent
  torAssert (t = some ent)
  let (edMap, t) := htRemove KeypinEnt.ed25519Key s.edMap ent
  torAssert (t = some ent)
  return { s with rsaMap := rsaMap, edMap := edMap }

def removeFound (s : State) : Option KeypinEnt → Option State
  | some ent => s.removeEntry ent
  | none => some s

def addOrReplaceEntryInMap (s : State) (ent : KeypinEnt) : Option (State × ℤ) :=
  let ent2 := htFind KeypinEnt.rsaId s.rsaMap ent
  let ent3 := htFind KeypinEnt.ed25519Key s.edMap ent
  if ent2.any fun e => e.ed25519Key = ent.ed25519Key then some (s, 0)
  else if ent2.isSome ∨ ent3.isSome then do
    let s ← s.removeFound ent2
    let s ← s.removeFound (if ent2 ≠ ent3 then ent3 else none)
    return (s.addEntryToMap ent, -1)
  else some (s.addEntryToMap ent, 1)

end State

inductive KeypinStatus
  | found
  | added
  | mismatch
  | notFound
  deriving DecidableEq

section Journal

def newline : UInt8 := 10

def base64DigestLen : ℕ := 27

def base64Digest256Len : ℕ := 43

def journalLineLen : ℕ := base64DigestLen + base64Digest256Len + 2

def digestToBase64 (digest : Digest digestLen) : Option Bytes := do
  let buf := base64EncodeNopad digest.val
  torAssert (buf.length = base64DigestLen)
  return buf

def digest256ToBase64 (digest : Digest digest256Len) : Option Bytes := do
  let buf := base64EncodeNopad digest.val
  torAssert (buf.length = base64Digest256Len)
  return buf

/-- `keypin_journal_append_entry`. A write can fail after some of its bytes. -/
def State.journalAppendEntry (s : State) (failure : Option ℕ) (rsaId : Digest digestLen)
    (ed25519Key : Digest digest256Len) : Option State :=
  if !s.journalFd then some s
  else do
    let line := (← digestToBase64 rsaId) ++ 32 :: (← digest256ToBase64 ed25519Key) ++ [newline]
    match failure with
    | none => return { s with journal := s.journal ++ line }
    | some n => return { s with journal := s.journal ++ line.take n, journalFd := false }

/-- `base64_decode` of a digest, which must have its full length. -/
def digestFromBase64 (n : ℕ) (src : Bytes) : Option (Digest n) :=
  (base64Decode n src).bind fun dest => if h : dest.length = n then some ⟨dest, h⟩ else none

def parseJournalLine (cp : Bytes) : Option (Digest digestLen × Digest digest256Len) := do
  let rsaId ← digestFromBase64 digestLen (cp.take base64DigestLen)
  if cp[base64DigestLen]? ≠ some 32 then none
  else
    let ed25519Key ← digestFromBase64 digest256Len
      ((cp.drop (base64DigestLen + 1)).take base64Digest256Len)
    return (rsaId, ed25519Key)

/-- The pair that a line of a journal gives. -/
def lineEntry (line : Bytes) : Option (Digest digestLen × Digest digest256Len) :=
  if line.length = 0 then none
  else if line.head? = some 64 then none
  else if line.head? = some 35 then none
  else if line.length ≠ journalLineLen - 1 then none
  else parseJournalLine line

/-- The lines that the loop of `keypin_load_journal_impl` goes through. -/
def journalLines : Bytes → List Bytes
  | [] => []
  | c :: data =>
    (c :: data).takeWhile (· ≠ newline) ::
      journalLines (((c :: data).dropWhile (· ≠ newline)).drop 1)
termination_by data => data.length
decreasing_by
  have hle := (List.dropWhile_sublist (l := c :: data) (· ≠ newline)).length_le
  simp only [List.length_drop, List.length_cons] at *
  omega

def State.loadLine (s : State) (line : Bytes) : Option State :=
  match lineEntry line with
  | none => some s
  | some (rsaId, ed25519Key) => do
    let (s, ent) := s.alloc rsaId ed25519Key
    let (s, _) ← s.addOrReplaceEntryInMap ent
    return s

def State.loadJournalImpl (s : State) (data : Bytes) : Option State :=
  (journalLines data).foldlM State.loadLine s

end Journal

section Check

def State.checkAndAddImpl (s : State) (rsaId : Digest digestLen)
    (ed25519Key : Digest digest256Len) (doNotAdd replace : Bool) (failure : Option ℕ) :
    Option (State × KeypinStatus) := do
  let search : KeypinEnt := ⟨0, rsaId, ed25519Key⟩
  let byRsa := htFind KeypinEnt.rsaId s.rsaMap search
  torAssert (byRsa.all fun ent => ent.rsaId = rsaId)
  if byRsa.any fun ent => ent.ed25519Key = ed25519Key then return (s, .found)
  else if byRsa.isSome ∧ !replace then return (s, .mismatch)
  else
    match if replace then none else htFind KeypinEnt.ed25519Key s.edMap search with
    | some ent =>
      torAssert (ent.ed25519Key = ed25519Key)
      torAssert (ent.rsaId ≠ rsaId)
      return (s, .mismatch)
    | none =>
      if doNotAdd then return (s, .notFound)
      else
        let (s, ent) := s.alloc rsaId ed25519Key
        let (s, r) ← s.addOrReplaceEntryInMap ent
        torAssert (if replace then r ≠ 0 else r = 1)
        let s ← s.journalAppendEntry failure rsaId ed25519Key
        return (s, .added)

def State.checkAndAdd (s : State) (rsaId : Digest digestLen) (ed25519Key : Digest digest256Len)
    (replace : Bool) (failure : Option ℕ) : Option (State × KeypinStatus) :=
  s.checkAndAddImpl rsaId ed25519Key false replace failure

/-- `keypin_check`. -/
def State.check (s : State) (rsaId : Digest digestLen) (ed25519Key : Digest digest256Len) :
    Option (State × KeypinStatus) :=
  s.checkAndAddImpl rsaId ed25519Key true false none

end Check

section Runs

inductive Call
  | checkAndAdd (rsaId : Digest digestLen) (ed25519Key : Digest digest256Len) (replace : Bool)
      (failure : Option ℕ)
  | check (rsaId : Digest digestLen) (ed25519Key : Digest digest256Len)
  | loadJournal (data : Bytes)

def step (s : State) : Call → Option State
  | .checkAndAdd rsaId ed25519Key replace failure =>
    (s.checkAndAdd rsaId ed25519Key replace failure).map Prod.fst
  | .check rsaId ed25519Key => (s.check rsaId ed25519Key).map Prod.fst
  | .loadJournal data => s.loadJournalImpl data

/-- Empty tables. -/
def empty : State := ⟨[], [], 0, [], false⟩

/-- What `format_iso_time` gives: no newline. -/
abbrev IsoTime := { tbuf : Bytes // newline ∉ tbuf }

/-- The text "@opened-at ". -/
def openedAt : Bytes := [64, 111, 112, 101, 110, 101, 100, 45, 97, 116, 32]

/-- `keypin_open_journal`, where nothing fails. -/
def State.openJournal (s : State) (tbuf : IsoTime) : State :=
  { s with
    journal := s.journal ++ newline :: (openedAt ++ tbuf.val ++ [newline])
    journalFd := true }

end Runs

end TorDaemon.Keypin
