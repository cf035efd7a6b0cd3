import Mathlib.Data.List.DropRight
import TorDaemon.Library.Tables
import TorDaemon.SharedRandom.Protocol

/-! The state file. Its times and its lines are read back as they were written; a line's text is
made and parsed here. -/
namespace TorDaemon.SharedRandom
open Keypin Library.NetworkOrder Library.Sorting Library.Tables

structure ConfigLine where
  key : Bytes
  value : Bytes

structure DiskState where
  version : ℕ
  validAfter : ℕ
  validUntil : ℕ
  commit : List Bytes
  sharedRandValues : List ConfigLine

def dstatePrevSrvKey : Bytes := ascii "SharedRandPreviousValue"

def dstateCurSrvKey : Bytes := ascii "SharedRandCurrentValue"

section Write

/-- `%u` and `PRIu64`. -/
def decimalString (n : ℕ) : Bytes := (Nat.toDigits 10 n).map fun c => c.toUInt8

/-- The words of a line with a space between them. -/
def spaced (words : List Bytes) : Bytes := [(32 : UInt8)].intercalate words

def commitWords (c : Commit) : List Bytes :=
  [decimalString srProtoVersion, cryptoDigestAlgorithmGetName c.alg, c.rsaFpr, c.encodedCommit] ++
    if c.hasRevealValue then [c.encodedReveal] else []

def putCommitLine (c : Commit) : Bytes := spaced (commitWords c)

def srSrvEncode (srv : Srv) : Bytes := base64Encode srv.value.val

def putSrvLine (srv : Srv) : Bytes := spaced [decimalString srv.numReveals, srSrvEncode srv]

def diskStateUpdate (s : SrState) : DiskState where
  version := s.version
  validAfter := s.validAfter
  validUntil := s.validUntil
  commit := s.commits.commits.map putCommitLine
  sharedRandValues :=
    (s.previousSrv.map fun srv => ⟨dstatePrevSrvKey, putSrvLine srv⟩).toList ++
      (s.currentSrv.map fun srv => ⟨dstateCurSrvKey, putSrvLine srv⟩).toList

end Write

section Read

def toLower (c : UInt8) : UInt8 := if 65 ≤ c ∧ c ≤ 90 then c + 32 else c

/-- `strcasecmp` finds no difference. -/
def strcaseeq (a b : Bytes) : Bool := a.map toLower = b.map toLower

/-- `strcmpend`, for equality. -/
def strcmpendEq (s suffix : Bytes) : Bool := suffix.isSuffixOf s

/-- `strcasecmpend`, for equality. -/
def strcasecmpendEq (s suffix : Bytes) : Bool := (suffix.map toLower).isSuffixOf (s.map toLower)

/-- A word without the white space around it. -/
def trim (s : Bytes) : Bytes := (s.dropWhile isSpace).rdropWhile isSpace

/-- `smartlist_split_string` at spaces, with `SPLIT_SKIP_SPACE` and `SPLIT_IGNORE_BLANK`. -/
def splitString (s : Bytes) : List Bytes := ((s.splitOn 32).map trim).filter fun w => w ≠ []

def parseCommitLine (m : CommitMap) (line : Bytes) : Option CommitMap :=
  let args := splitString line
  if args.length < 3 then none
  else
    match srParseCommit args with
    | none => some m
    | some c => some (m.set { c with valid := true } c.valid_accepted)

def diskStateParseCommits (lines : List Bytes) : Option CommitMap :=
  lines.foldlM parseCommitLine .empty

def srSrvValueBase64Len : ℕ := 44

/-- `sr_parse_srv`. The last character of the value, which is the padding, is not decoded. -/
def srParseSrv (args : List Bytes) : Option Srv :=
  match args with
  | numReveals :: value :: _ => do
    let numReveals ← torParseUint64 numReveals 0 (2 ^ 64 - 1)
    if value.length ≠ srSrvValueBase64Len then none
    else
      let decoded ← base64Decode 32 (value.take (srSrvValueBase64Len - 1))
      let value ← ofLength 32 decoded
      return { numReveals := numReveals, value := value }
  | _ => none

/-- One line of `disk_state_parse_sr_values`: the previous and the current value so far. -/
def parseSrValue (srvs : Option Srv × Option Srv) (line : ConfigLine) :
    Option (Option Srv × Option Srv) := do
  let srv ← srParseSrv (splitString line.value)
  if strcaseeq line.key dstatePrevSrvKey then
    if srvs.1.isSome then none else some (some srv, srvs.2)
  else if strcaseeq line.key dstateCurSrvKey then
    if srvs.2.isSome then none else some (srvs.1, some srv)
  else some srvs

def diskStateParseSrValues (lines : List ConfigLine) : Option (Option Srv × Option Srv) :=
  lines.foldlM parseSrValue (none, none)

/-- `disk_state_validate` at the time `now`. -/
def diskStateValidate (now : ℕ) (d : DiskState) : Bool :=
  ¬ (d.version = 0 ∨ srProtoVersion < d.version) ∧ ¬ d.validUntil < now ∧
    ¬ d.validUntil ≤ d.validAfter

/-- `disk_state_parse`. The new map of the commits has an order of its own. -/
def diskStateParse (env : Env) (it : Iteration Commit) (now : ℕ) (d : DiskState) :
    Option SrState := do
  let (previousSrv, currentSrv) ← diskStateParseSrValues d.sharedRandValues
  let commits ← diskStateParseCommits d.commit
  return { stateNew env now with
    version := d.version
    validUntil := d.validUntil
    validAfter := d.validAfter
    phase := getSrProtocolPhase env d.validAfter
    previousSrv := previousSrv
    currentSrv := currentSrv
    commits := commits.reorder (it.perm commits.commits) }

/-- `sr_state_init` with the state file as it is, if there is one. -/
def srStateInit (digest256 : Bytes → Digest256) (env : Env) (it : Iteration Commit) (now : ℕ)
    (d : Option DiskState) : Option Progress :=
  let loaded := d.bind fun d =>
    if diskStateValidate now d then diskStateParse env it now d else none
  let p := match loaded with
    | some s => ⟨s, []⟩
    | none => ⟨stateNew env now, [stateNew env now]⟩
  srStateUpdate digest256 env env.nextValidAfter p

end Read

/-! What is written to the state file is read back from it, where the encodings of the commits are
not cut up with their lines. -/

section DiskRoundTrip
variable {c : Commit} {w : Bytes} {words : List Bytes}

section Words

/-- A word of a line: it is not empty, and has no white space. -/
structure IsWord (w : Bytes) : Prop where
  nonempty : w ≠ []
  noSpace : ∀ x ∈ w, isSpace x = false

theorem dropWhile_of_noSpace (h : ∀ x ∈ w, isSpace x = false) : w.dropWhile isSpace = w := by
  cases w with
  | nil => rfl
  | cons x w => exact List.dropWhile_cons_of_neg (by simp [h x (.head _)])

theorem trim_of_noSpace (h : ∀ x ∈ w, isSpace x = false) : trim w = w := by
  rw [trim, dropWhile_of_noSpace h, List.rdropWhile_eq_self_iff]
  intro hne
  simp [h _ (List.getLast_mem hne)]

theorem not_mem_splitOn {s : Bytes} {x : UInt8} (h : w ∈ s.splitOn x) : x ∉ w := by
  induction s generalizing w with
  | nil =>
    rw [List.splitOn_nil, List.mem_singleton] at h
    simp [h]
  | cons y s ih =>
    rw [List.splitOn_cons_eq_if_modifyHead] at h
    by_cases hy : (y == x) = true
    · rw [if_pos hy, List.mem_cons] at h
      rcases h with rfl | h
      · simp
      · exact ih h
    · rw [if_neg hy] at h
      obtain ⟨u, us, hus⟩ := List.exists_cons_of_ne_nil (List.splitOn_ne_nil x s)
      rw [hus, List.modifyHead_cons, List.mem_cons] at h
      rcases h with rfl | h
      · have hu : x ∉ u := ih (by rw [hus]; exact .head _)
        have hne : x ≠ y := fun heq => hy (by simp [heq])
        exact fun hmem => (List.mem_cons.mp hmem).elim hne hu
      · exact ih (by rw [hus]; exact .tail _ h)

theorem trim_sublist (s : Bytes) : (trim s).Sublist s :=
  (List.rdropWhile_prefix isSpace _).sublist.trans (List.dropWhile_sublist isSpace)

theorem trim_trim (s : Bytes) : trim (trim s) = trim s := by
  have hfront : (trim s).dropWhile isSpace = trim s := by
    rw [List.dropWhile_eq_self_iff]
    intro hpos
    obtain ⟨t, ht⟩ : trim s <+: s.dropWhile isSpace := List.rdropWhile_prefix isSpace _
    have hhead : (s.dropWhile isSpace).head? = some (trim s)[0] := by
      rw [← ht, List.head?_append_of_ne_nil _ (List.length_pos_iff.mp hpos), List.head?_eq_getElem?,
        List.getElem?_eq_getElem hpos]
    simpa using Library.Scanner.head_dropWhile isSpace s _ hhead
  have hback : (trim s).rdropWhile isSpace = trim s := List.rdropWhile_idempotent isSpace _
  change ((trim s).dropWhile isSpace).rdropWhile isSpace = trim s
  rw [hfront, hback]

/-- What a line may have between its blanks: something without a blank in it, and without white
space at its ends. -/
structure IsField (w : Bytes) : Prop where
  nonempty : w ≠ []
  noBlank : (32 : UInt8) ∉ w
  trimmed : trim w = w

theorem IsWord.isField (h : IsWord w) : IsField w where
  nonempty := h.nonempty
  noBlank hmem := absurd (h.noSpace 32 hmem) (by decide)
  trimmed := trim_of_noSpace h.noSpace

theorem splitString_spaced (hne : words ≠ []) (h : ∀ w ∈ words, IsField w) :
    splitString (spaced words) = words := by
  have htrim : words.map trim = words :=
    (List.map_congr_left fun w hw => (h w hw).trimmed).trans (List.map_id _)
  unfold splitString spaced
  rw [List.splitOn_intercalate 32 (fun w hw => (h w hw).noBlank) hne, htrim]
  apply List.filter_eq_self.mpr
  intro w hw
  simpa using (h w hw).nonempty

theorem noSpace_of_digit {x : UInt8} (h : isDigit x = true) : isSpace x = false := by
  revert x
  decide +kernel

theorem noSpace_hexDigit (b : UInt8) :
    isSpace (hexDigit (b >>> 4)) = false ∧ isSpace (hexDigit (b &&& 15)) = false := by
  revert b
  decide +kernel

theorem noSpace_base64 {v : ℕ} (hv : v < 64) : isSpace (base64EncodeTable v) = false := by
  have hall : ∀ v : Fin 64, isSpace (base64EncodeTable v) = false := by decide
  exact hall ⟨v, hv⟩

end Words

section Numbers

theorem digit_toNat {c : Char} (h : c.isDigit = true) :
    c.toUInt8.toNat = c.toNat ∧ 48 ≤ c.toNat ∧ c.toNat ≤ 57 := by
  simp only [Char.isDigit, Bool.and_eq_true, decide_eq_true_eq] at h
  have hlow : 48 ≤ c.toNat := UInt32.le_iff_toNat_le.mp h.1
  have hhigh : c.toNat ≤ 57 := UInt32.le_iff_toNat_le.mp h.2
  refine ⟨?_, hlow, hhigh⟩
  have hmod : c.toUInt8.toNat = c.toNat % 256 := UInt32.toNat_toUInt8 c.val
  omega

theorem isDigit_of_toDigits {n : ℕ} {c : Char} (hc : c ∈ Nat.toDigits 10 n) : c.isDigit = true :=
  Nat.isDigit_of_mem_toDigits (by decide) (by decide) hc

theorem decimalString_digits (n : ℕ) : ∀ x ∈ decimalString n, isDigit x = true := by
  intro x hx
  obtain ⟨c, hc, rfl⟩ := List.mem_map.mp hx
  obtain ⟨hnat, hlow, hhigh⟩ := digit_toNat (isDigit_of_toDigits hc)
  simp only [isDigit, decide_eq_true_eq, UInt8.le_iff_toNat_le, hnat]
  exact ⟨hlow, hhigh⟩

theorem decimal_map {l : List Char} (h : ∀ c ∈ l, c.isDigit = true) (n : ℕ) :
    (l.map fun c => c.toUInt8).foldl (fun n d => 10 * n + (d.toNat - 48)) n =
      Nat.ofDigitChars 10 l n := by
  induction l generalizing n with
  | nil => rfl
  | cons c l ih =>
    obtain ⟨hnat, -, -⟩ := digit_toNat (h c (.head _))
    rw [List.map_cons, List.foldl_cons, Nat.ofDigitChars_cons, ih fun d hd => h d (.tail _ hd), hnat]
    rfl

theorem decimal_decimalString (n : ℕ) : decimal (decimalString n) = n := by
  rw [decimal, decimalString, decimal_map fun c hc => isDigit_of_toDigits hc,
    Nat.ofDigitChars_ten_toDigits]

theorem decimalString_isWord (n : ℕ) : IsWord (decimalString n) := by
  constructor
  · simp [decimalString, Nat.toDigits_ne_nil]
  · exact fun x hx => noSpace_of_digit (decimalString_digits n x hx)

theorem torParseUint64_decimalString {n max : ℕ} (hn : n < 2 ^ 64) (hmax : n ≤ max) (min : ℕ)
    (hmin : min ≤ n) : torParseUint64 (decimalString n) min max = some n := by
  have hword := decimalString_isWord n
  have hfront := dropWhile_of_noSpace hword.noSpace
  have hsign : ∀ x, (decimalString n).head? = some x → isDigit x = true := by
    intro x hx
    exact decimalString_digits n x (List.mem_of_head? hx)
  have hplus : (decimalString n).head? ≠ some 43 := fun h => absurd (hsign 43 h) (by decide)
  have hminus : (decimalString n).head? ≠ some 45 := fun h => absurd (hsign 45 h) (by decide)
  have htake : (decimalString n).takeWhile isDigit = decimalString n :=
    List.takeWhile_eq_self_iff.mpr (decimalString_digits n)
  have hdrop : (decimalString n).dropWhile isDigit = [] :=
    List.dropWhile_eq_nil_iff.mpr (decimalString_digits n)
  have hparse : strtoul (decimalString n) = some (false, n) := by
    unfold strtoul
    simp [hfront, hplus, hminus, htake, hdrop, hword.nonempty, decimal_decimalString]
  rw [torParseUint64, hparse]
  simp only [Option.bind_some, Bool.false_eq_true, if_false]
  rw [if_neg (Nat.not_le_of_lt hn), if_neg (by omega)]

end Numbers

section Commits

theorem hexDecodeDigit_hexDigit (b : UInt8) :
    ∃ v1 v2, hexDecodeDigit (hexDigit (b >>> 4)) = some v1 ∧
      hexDecodeDigit (hexDigit (b &&& 15)) = some v2 ∧ v1 <<< 4 ||| v2 = b := by
  have hall : ∀ b : UInt8, ∃ v1 ∈ hexDecodeDigit (hexDigit (b >>> 4)),
      ∃ v2 ∈ hexDecodeDigit (hexDigit (b &&& 15)), v1 <<< 4 ||| v2 = b := by decide +kernel
  obtain ⟨v1, h1, v2, h2, hb⟩ := hall b
  exact ⟨v1, v2, h1, h2, hb⟩

theorem base16Decode_encode (b : Bytes) : base16Decode b.length (base16Encode b) = some b := by
  induction b with
  | nil => rfl
  | cons x b ih =>
    obtain ⟨v1, v2, h1, h2, hx⟩ := hexDecodeDigit_hexDigit x
    have hcons : base16Encode (x :: b) =
        hexDigit (x >>> 4) :: hexDigit (x &&& 15) :: base16Encode b := rfl
    rw [hcons, List.length_cons, base16Decode, h1, h2, ih]
    simp [hx]

theorem rsaFpr_isWord (c : Commit) : IsWord c.rsaFpr := by
  constructor
  · intro hnil
    simpa [hnil] using rsaFpr_length c
  · intro x hx
    obtain ⟨b, -, hb⟩ := List.mem_flatMap.mp hx
    rcases List.mem_pair.mp hb with rfl | rfl
    · exact (noSpace_hexDigit b).1
    · exact (noSpace_hexDigit b).2

/-- The encodings of the commit stay as they are when its line is split: no blank is in them, and
no white space at their ends. -/
structure Commit.Separable (c : Commit) : Prop where
  noBlank : (32 : UInt8) ∉ c.encodedCommit ++ c.encodedReveal
  encodedCommit : trim c.encodedCommit = c.encodedCommit
  encodedReveal : trim c.encodedReveal = c.encodedReveal

theorem commitWords_isField (hc : c.Decoded) (hseparable : c.Separable) :
    ∀ w ∈ commitWords c, IsField w := by
  obtain ⟨hblank, hcommit, hrevealed⟩ := hseparable
  rw [List.mem_append, not_or] at hblank
  intro w hw
  have halg : IsWord (cryptoDigestAlgorithmGetName c.alg) := by
    rw [hc.alg]
    exact ⟨by decide, by decide +kernel⟩
  rcases List.mem_append.mp hw with hw | hw
  · simp only [List.mem_cons, List.not_mem_nil, or_false] at hw
    rcases hw with rfl | rfl | rfl | rfl
    · exact (decimalString_isWord _).isField
    · exact halg.isField
    · exact (rsaFpr_isWord c).isField
    · exact ⟨stampedDecode_ne_nil hc.commitment, hblank.1, hcommit⟩
  · cases hreveal : c.hasRevealValue with
    | false => simp [hreveal] at hw
    | true =>
      simp only [hreveal, if_true, List.mem_singleton] at hw
      subst hw
      exact ⟨by simpa [Commit.hasRevealValue] using hreveal, hblank.2, hrevealed⟩

theorem srParseCommit_words (hc : c.Decoded) :
    srParseCommit (commitWords c) = some { c with valid := false } := by
  have hversion : ¬ srProtoVersion <
      (torParseUint64 (decimalString srProtoVersion) 1 (2 ^ 32 - 1)).getD 0 := by
    exact Nat.lt_irrefl _
  have halg : cryptoDigestAlgorithmParseName (cryptoDigestAlgorithmGetName c.alg) =
      some .sha3_256 := by
    rw [hc.alg]
    decide
  have hdigest : base16Decode 20 c.rsaFpr = some c.rsaIdentity.val := by
    have hdecode := base16Decode_encode c.rsaIdentity.val
    rwa [c.rsaIdentity.property] at hdecode
  have hcommit : commitDecode c.encodedCommit (.new c.rsaIdentity) =
      some { Commit.new c.rsaIdentity with
        commitTs := c.commitTs, hashedReveal := c.hashedReveal
        encodedCommit := c.encodedCommit } := by
    rw [commitDecode, hc.commitment]
    rfl
  have hreveal := hc.reveal
  have hargs : srParseCommit (commitWords c) =
      if c.hasRevealValue then
        revealDecode c.encodedReveal { Commit.new c.rsaIdentity with
          commitTs := c.commitTs, hashedReveal := c.hashedReveal
          encodedCommit := c.encodedCommit }
      else some { Commit.new c.rsaIdentity with
          commitTs := c.commitTs, hashedReveal := c.hashedReveal
          encodedCommit := c.encodedCommit } := by
    simp only [srParseCommit, commitWords, List.cons_append, List.nil_append, if_neg hversion,
      halg, ne_eq, not_true, if_false, hdigest, Option.bind_eq_bind, Option.bind_some,
      ofLength_of c.rsaIdentity.property, hcommit]
    cases c.hasRevealValue <;> rfl
  rw [hargs]
  obtain ⟨alg, valid, rsaIdentity, revealTs, hashedReveal, encodedCommit, randomNumber, commitTs,
    encodedReveal⟩ := c
  obtain rfl : alg = .sha3_256 := hc.alg
  cases hhas : Commit.hasRevealValue ⟨.sha3_256, valid, rsaIdentity, revealTs, hashedReveal,
      encodedCommit, randomNumber, commitTs, encodedReveal⟩ with
  | false =>
    have hnil : encodedReveal = [] := by simpa [Commit.hasRevealValue] using hhas
    simp only [hhas, Bool.false_eq_true, if_false] at hreveal
    obtain ⟨rfl, rfl⟩ := hreveal
    subst hnil
    rfl
  | true =>
    simp only [hhas, if_true] at hreveal
    simp only [if_true, revealDecode, hreveal]
    rfl

theorem parseCommitLine_put (hc : c.Decoded) (hseparable : c.Separable) (hvalid : c.valid = true)
    (m : CommitMap) : parseCommitLine m (putCommitLine c) = some (m.set c hvalid) := by
  have hargs : splitString (putCommitLine c) = commitWords c :=
    splitString_spaced (by simp [commitWords]) (commitWords_isField hc hseparable)
  have hlength : ¬ (commitWords c).length < 3 := by simp [commitWords]
  have hsame : { { c with valid := false } with valid := true } = c := by
    cases c
    simp_all
  simp only [parseCommitLine, hargs, if_neg hlength, srParseCommit_words hc, hsame]

theorem foldlM_parseCommitLine {l : List Commit} (hdecoded : ∀ c ∈ l, c.Decoded)
    (hseparable : ∀ c ∈ l, c.Separable) (hvalid : ∀ c ∈ l, c.valid = true) (m : CommitMap)
    (hdistinct : ((l.reverse ++ m.commits).map Commit.rsaIdentity).Nodup) :
    ∃ m', (l.map putCommitLine).foldlM parseCommitLine m = some m' ∧
      m'.commits = l.reverse ++ m.commits := by
  induction l generalizing m with
  | nil => exact ⟨m, rfl, rfl⟩
  | cons c l ih =>
    have hline := parseCommitLine_put (hdecoded c (.head _)) (hseparable c (.head _))
      (hvalid c (.head _)) m
    have hother : ∀ d ∈ m.commits, d.rsaIdentity ≠ c.rsaIdentity := by
      intro d hd heq
      simp only [List.reverse_cons, List.append_assoc, List.singleton_append, List.map_append,
        List.map_cons] at hdistinct
      have htail := (List.nodup_append.mp hdistinct).2.1
      exact (List.nodup_cons.mp htail).1 (heq ▸ List.mem_map_of_mem hd)
    have hset : (m.set c (hvalid c (.head _))).commits = c :: m.commits := by
      simp only [CommitMap.set, List.cons.injEq, true_and]
      apply List.filter_eq_self.mpr
      intro d hd
      simpa using hother d hd
    obtain ⟨m', hm', hcommits⟩ := ih (fun d hd => hdecoded d (.tail _ hd))
      (fun d hd => hseparable d (.tail _ hd)) (fun d hd => hvalid d (.tail _ hd))
      (m.set c (hvalid c (.head _))) (by simpa [hset] using hdistinct)
    refine ⟨m', ?_, ?_⟩
    · rw [List.map_cons, List.foldlM_cons, hline]
      exact hm'
    · simp [hcommits, hset]

end Commits

section Values

theorem base64Encode_noSpace (b : Bytes) : ∀ x ∈ base64Encode b, isSpace x = false := by
  intro x hx
  rw [base64Encode_eq] at hx
  rcases List.mem_append.mp hx with hx | hx
  · obtain ⟨v, hv, rfl⟩ := List.mem_map.mp hx
    exact noSpace_base64 (sextets_lt b v hv)
  · obtain rfl := List.eq_of_mem_replicate hx
    decide

/-- A value comes back from its line, without the padding that is left out. -/
theorem srParseSrv_put {srv : Srv} (h : srv.numReveals < 2 ^ 64) :
    srParseSrv (splitString (putSrvLine srv)) = some srv := by
  have hlength : (srSrvEncode srv).length = srSrvValueBase64Len := by
    simp [srSrvEncode, base64Encode_eq, sextets_length, pads, srv.value.property,
      srSrvValueBase64Len]
  have hword : IsWord (srSrvEncode srv) := by
    constructor
    · intro hnil
      rw [hnil] at hlength
      cases hlength
    · exact base64Encode_noSpace _
  have hargs : splitString (putSrvLine srv) =
      [decimalString srv.numReveals, srSrvEncode srv] := by
    apply splitString_spaced (by simp)
    intro w hw
    rcases List.mem_pair.mp hw with rfl | rfl
    · exact (decimalString_isWord _).isField
    · exact hword.isField
  have hnum : torParseUint64 (decimalString srv.numReveals) 0 (2 ^ 64 - 1) = some srv.numReveals :=
    torParseUint64_decimalString h (by omega) 0 (Nat.zero_le _)
  have htake : (srSrvEncode srv).take (srSrvValueBase64Len - 1) =
      (sextets srv.value.val).map base64EncodeTable := by
    rw [srSrvEncode, base64Encode_eq]
    apply List.take_left'
    simp [sextets_length, srv.value.property, srSrvValueBase64Len]
  have hdecode : base64Decode 32 ((srSrvEncode srv).take (srSrvValueBase64Len - 1)) =
      some srv.value.val := by
    rw [htake]
    have hdecode : base64Decode 32 ((sextets srv.value.val).map base64EncodeTable ++ []) =
        some srv.value.val :=
      base64Decode_encode (Nat.le_of_eq srv.value.property) List.nil_prefix
    rwa [List.append_nil] at hdecode
  rw [hargs]
  simp only [srParseSrv, hnum, Option.bind_eq_bind, Option.bind_some, hlength, ne_eq, not_true,
    if_false, hdecode, ofLength_of srv.value.property]
  rfl

theorem diskStateParseSrValues_update {s : SrState}
    (hprevious : ∀ srv ∈ s.previousSrv, srv.numReveals < 2 ^ 64)
    (hcurrent : ∀ srv ∈ s.currentSrv, srv.numReveals < 2 ^ 64) :
    diskStateParseSrValues (diskStateUpdate s).sharedRandValues =
      some (s.previousSrv, s.currentSrv) := by
  have hprevKey : strcaseeq dstatePrevSrvKey dstatePrevSrvKey = true := by decide
  have hcurKey : strcaseeq dstateCurSrvKey dstateCurSrvKey = true := by decide
  have hkeys : strcaseeq dstateCurSrvKey dstatePrevSrvKey = false := by decide
  unfold diskStateParseSrValues diskStateUpdate
  cases hp : s.previousSrv with
  | none =>
    cases hc : s.currentSrv with
    | none => rfl
    | some current =>
      have hparse := srParseSrv_put (hcurrent current hc)
      simp [parseSrValue, hparse, hkeys, hcurKey]
  | some previous =>
    have hparse := srParseSrv_put (hprevious previous hp)
    cases hc : s.currentSrv with
    | none => simp [parseSrValue, hparse, hprevKey]
    | some current =>
      have hparse' := srParseSrv_put (hcurrent current hc)
      simp [parseSrValue, hparse, hparse', hprevKey, hkeys, hcurKey]

end Values

/-- The words of the state are read from the file as they are written to it: the encodings of its
commits are not cut up, and a count fits into 64 bits. -/
structure Legible (s : SrState) : Prop where
  separable : ∀ c ∈ s.commits.commits, c.Separable
  previous : ∀ srv ∈ s.previousSrv, srv.numReveals < 2 ^ 64
  current : ∀ srv ∈ s.currentSrv, srv.numReveals < 2 ^ 64

/-- What is loaded is what was saved, but for the phase, which is the one of the valid-after time
on file, and for what is not written. -/
theorem diskStateParse_update {s : SrState} (hdecoded : ∀ c ∈ s.commits.commits, c.Decoded)
    (hs : Legible s) (env : Env) (it : Iteration Commit) (now : ℕ) :
    ∃ t, diskStateParse env it now (diskStateUpdate s) = some t ∧
      t.commits.commits.Perm s.commits.commits ∧ t.previousSrv = s.previousSrv ∧
      t.currentSrv = s.currentSrv ∧ t.validAfter = s.validAfter ∧
      t.phase = getSrProtocolPhase env s.validAfter ∧ t.version = s.version := by
  obtain ⟨m, hm, hcommits⟩ := foldlM_parseCommitLine hdecoded hs.separable s.commits.valid .empty
    (by simpa [CommitMap.empty] using (List.reverse_perm _).nodup_iff.mpr s.commits.distinct)
  have hlines : diskStateParseCommits (diskStateUpdate s).commit = some m := hm
  have hperm : (it.order m.commits).Perm s.commits.commits := by
    apply (it.perm m.commits).trans
    rw [hcommits]
    simp [CommitMap.empty, List.reverse_perm]
  have hparse : diskStateParse env it now (diskStateUpdate s) = some { stateNew env now with
      version := s.version
      validUntil := s.validUntil
      validAfter := s.validAfter
      phase := getSrProtocolPhase env s.validAfter
      previousSrv := s.previousSrv
      currentSrv := s.currentSrv
      commits := m.reorder (it.perm m.commits) } := by
    rw [diskStateParse, diskStateParseSrValues_update hs.previous hs.current, hlines]
    rfl
  exact ⟨_, hparse, hperm, rfl, rfl, rfl, rfl, rfl⟩

end DiskRoundTrip

end TorDaemon.SharedRandom
