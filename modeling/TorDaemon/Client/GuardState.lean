import TorDaemon.Encoding.IsoTime
import TorDaemon.Library.KeyValue
import TorDaemon.Net.AddressText
import TorDaemon.Nodelist.Routerset

/-! The text of an entry guard in the state file (`entrynodes.c`). Path bias counts are floating
point numbers, of which only their texts are given. -/
namespace TorDaemon.Client.GuardState
open Library.KeyValue Library.NetworkOrder Library.Scanner Library.Sorting SharedRandom
open Dirvote (int32Max longString torParseLong torParseLong_longString)
open Encoding.IsoTime (formatIsoTimeNospace parseIsoTimeNospace Representable
  noSpace_formatIsoTimeNospace parseIsoTimeNospace_format)
open Net (fmtAndDecorateAddr torAddrPortParse noSpace_fmtAndDecorateAddr torAddrPortParse_fmt)
open Nodelist (isLegalNickname isNicknameChar)
open Policies (TorAddr)

section Guards

/-- The path bias counts that are kept. -/
inductive PbField
  | useAttempts
  | useSuccesses
  | circAttempts
  | circSuccesses
  | successfulCircuitsClosed
  | collapsedCircuits
  | unusableCircuits
  | timeouts
  deriving DecidableEq

def maxHexNicknameLen : ℕ := 41

/-- What fits into `nickname`. -/
abbrev Nickname := { s : Bytes // s.length ≤ maxHexNicknameLen }

structure AddrPort where
  addr : TorAddr
  port : UInt16
  deriving DecidableEq

/-- What of `entry_guard_t` is written or read. A date of 0 is no date. -/
structure EntryGuard (δ : Type) where
  nickname : Nickname
  identity : Digest
  sampledOnDate : ℤ
  unlistedSinceDate : ℤ
  sampledByVersion : Option Bytes
  currentlyListed : Bool
  confirmedOnDate : ℤ
  sampledIdx : ℤ
  confirmedIdx : ℤ
  selectionName : Bytes
  bridgeAddr : Option AddrPort
  isPersistent : Bool
  extraStateFields : Option Bytes
  pb : PbField → δ
  pathBiasDisabled : Bool

/-- The clock, a parameter of the consensus, and what is computed with the path bias counts. -/
structure Env (δ : Type) where
  approxTime : ℤ
  maxSampleSizeAbsolute : ℕ
  zero : δ
  /-- The count is `EPSILON` or more. -/
  isCounted : δ → Bool
  /-- `%f` -/
  format : δ → Bytes
  format_noSpace : ∀ d, ∀ x ∈ format d, isSpace x = false
  /-- `tor_parse_double` between 0 and 10^9. -/
  torParseDouble : Bytes → Option δ
  pathbiasGetUseSuccessCount : EntryGuard δ → δ
  pathbiasGetCloseSuccessCount : EntryGuard δ → δ
  /-- `pathbias_check_use_success_count` or `pathbias_check_close_success_count` disables it. -/
  pathbiasCheck : EntryGuard δ → Bool

end Guards

section Fields

/-- The keys, in the order in which they are written. -/
inductive Field
  | selection
  | rsaId
  | bridgeAddr
  | nickname
  | sampledOn
  | sampledIdx
  | sampledBy
  | unlistedSince
  | listed
  | confirmedOn
  | confirmedIdx
  | pb (count : PbField)
  deriving DecidableEq

def PbField.all : List PbField :=
  [.useAttempts, .useSuccesses, .circAttempts, .circSuccesses, .successfulCircuitsClosed,
    .collapsedCircuits, .unusableCircuits, .timeouts]

def Field.all : List Field :=
  [.selection, .rsaId, .bridgeAddr, .nickname, .sampledOn, .sampledIdx, .sampledBy, .unlistedSince,
    .listed, .confirmedOn, .confirmedIdx] ++ PbField.all.map .pb

def PbField.name : PbField → Bytes
  | .useAttempts => ascii "pb_use_attempts"
  | .useSuccesses => ascii "pb_use_successes"
  | .circAttempts => ascii "pb_circ_attempts"
  | .circSuccesses => ascii "pb_circ_successes"
  | .successfulCircuitsClosed => ascii "pb_successful_circuits_closed"
  | .collapsedCircuits => ascii "pb_collapsed_circuits"
  | .unusableCircuits => ascii "pb_unusable_circuits"
  | .timeouts => ascii "pb_timeouts"

def Field.name : Field → Bytes
  | .selection => ascii "in"
  | .rsaId => ascii "rsa_id"
  | .bridgeAddr => ascii "bridge_addr"
  | .nickname => ascii "nickname"
  | .sampledOn => ascii "sampled_on"
  | .sampledIdx => ascii "sampled_idx"
  | .sampledBy => ascii "sampled_by"
  | .unlistedSince => ascii "unlisted_since"
  | .listed => ascii "listed"
  | .confirmedOn => ascii "confirmed_on"
  | .confirmedIdx => ascii "confirmed_idx"
  | .pb count => count.name

end Fields

section Encode
variable {δ : Type} (env : Env δ)

/-- The counts that are written: those of successes include the circuits that are still open. -/
def savedCount (g : EntryGuard δ) : PbField → δ
  | .useSuccesses => env.pathbiasGetUseSuccessCount g
  | .successfulCircuitsClosed => env.pathbiasGetCloseSuccessCount g
  | count => g.pb count

/-- What is written for a key, where it is. -/
def fieldValue (g : EntryGuard δ) (denseSampledIdx : ℕ) : Field → Option Bytes
  | .selection => some g.selectionName
  | .rsaId => some (base16Encode g.identity.val)
  | .bridgeAddr => g.bridgeAddr.map fun a =>
      fmtAndDecorateAddr a.addr ++ 58 :: decimalString a.port.toNat
  | .nickname =>
    if g.nickname.val ≠ [] ∧ isLegalNickname g.nickname.val then some g.nickname.val else none
  | .sampledOn => some (formatIsoTimeNospace g.sampledOnDate)
  | .sampledIdx => some (decimalString denseSampledIdx)
  | .sampledBy => g.sampledByVersion
  | .unlistedSince =>
    if 0 < g.unlistedSinceDate then some (formatIsoTimeNospace g.unlistedSinceDate) else none
  | .listed => some (decimalString g.currentlyListed.toNat)
  | .confirmedOn =>
    if 0 ≤ g.confirmedIdx then some (formatIsoTimeNospace g.confirmedOnDate) else none
  | .confirmedIdx => if 0 ≤ g.confirmedIdx then some (longString g.confirmedIdx) else none
  | .pb count =>
    let d := savedCount env g count
    if env.isCounted d then some (env.format d) else none

/-- `%s=%s` -/
def fieldEntry (f : Field) (v : Bytes) : Bytes := f.name ++ 61 :: v

def entryGuardEncodeForState (g : EntryGuard δ) (denseSampledIdx : ℕ) : Bytes :=
  spaced (written (fieldValue env g denseSampledIdx) fieldEntry Field.all ++
    g.extraStateFields.toList)

end Encode

section Parse
variable {δ : Type} (env : Env δ)

/-- The key that `strmap_get` finds. -/
def fieldOf (key : Bytes) : Option Field := Field.all.find? fun f => f.name = key

/-- The text before the first `=`, as a key, and the text behind it. -/
def splitEntry (entry : Bytes) : Option (Field × Bytes) :=
  if 61 ∈ entry then
    (fieldOf (entry.takeWhile (· ≠ 61))).map fun f => (f, (entry.dropWhile (· ≠ 61)).tail)
  else none

def parseFromStateSetVals (s : Bytes) : Collected Bytes Field Bytes :=
  collect splitEntry (splitString s)

section
variable (field : Option Bytes)

def handleTime : ℤ :=
  match field with
  | none => 0
  | some text => (parseIsoTimeNospace text).getD (-1)

def parseSampledOn : ℤ :=
  if handleTime field ≤ 0 then env.approxTime else handleTime field

/-- A date of the parser that may be 0. -/
def parseDate : ℤ := if handleTime field < 0 then 0 else handleTime field

def parseConfirmedIdx : ℤ :=
  (field.bind fun text => torParseLong text 0 int32Max).getD (-1)

/-- Without an index of its own, a guard has that of its confirmation. -/
def parseSampledIdx (sampledIdx confirmedIdx : Option Bytes) : ℤ :=
  match sampledIdx with
  | some text => (torParseLong text 0 int32Max).getD env.maxSampleSizeAbsolute
  | none =>
    if confirmedIdx.isSome then parseConfirmedIdx confirmedIdx else env.maxSampleSizeAbsolute

def parseNickname (identity : Digest) : Nickname :=
  ⟨(field.getD (36 :: base16Encode identity.val)).take maxHexNicknameLen, List.length_take_le ..⟩

def parseBridgeAddr : Option AddrPort :=
  field.bind fun text =>
    match torAddrPortParse text (-1) with
    | .ok (addr, port) => some ⟨addr, UInt16.ofNat port⟩
    | .error _ => none

end

/-- `base16_decode` of a whole text. -/
def parseIdentity (rsaId : Bytes) : Option Digest := do
  if rsaId.length ≠ 40 then none
  else
    let decoded ← base16Decode 20 rsaId
    ofLength 20 decoded

/-- The guard without the check of its path bias counts. -/
def guardOfVals (vals : Field → Option Bytes) (extra : List Bytes) (selectionName : Bytes)
    (identity : Digest) : EntryGuard δ where
  nickname := parseNickname (vals .nickname) identity
  identity := identity
  sampledOnDate := parseSampledOn env (vals .sampledOn)
  unlistedSinceDate := parseDate (vals .unlistedSince)
  sampledByVersion := vals .sampledBy
  currentlyListed := (vals .listed).any fun text => text ≠ ascii "0"
  confirmedOnDate := parseDate (vals .confirmedOn)
  sampledIdx := parseSampledIdx env (vals .sampledIdx) (vals .confirmedIdx)
  confirmedIdx := parseConfirmedIdx (vals .confirmedIdx)
  selectionName := selectionName
  bridgeAddr := parseBridgeAddr (vals .bridgeAddr)
  isPersistent := true
  extraStateFields := if extra = [] then none else some (spaced extra)
  pb := fun count => ((vals (.pb count)).bind env.torParseDouble).getD env.zero
  pathBiasDisabled := false

def entryGuardParseFromState (s : Bytes) : Option (EntryGuard δ) := do
  let collected := parseFromStateSetVals s
  let selectionName ← collected.vals .selection
  let rsaId ← collected.vals .rsaId
  let identity ← parseIdentity rsaId
  let guard := guardOfVals env collected.vals collected.extra selectionName identity
  return { guard with pathBiasDisabled := env.pathbiasCheck guard }

end Parse

/-! What is written for a guard is read as that guard, with the index that it was written with. -/

section Words
variable {s w : Bytes} {words : List Bytes}

theorem splitString_append (s t : Bytes) :
    splitString (s ++ 32 :: t) = splitString s ++ splitString t := by
  unfold splitString
  rw [List.splitOn_append_cons_self, List.map_append, List.filter_append]

theorem splitString_flatMap (words : List Bytes) :
    splitString (spaced words) = words.flatMap splitString := by
  induction words with
  | nil => rfl
  | cons w words ih =>
    cases words with
    | nil => simp [spaced]
    | cons w' words =>
      have hspaced : spaced (w :: w' :: words) = w ++ 32 :: spaced (w' :: words) := by
        simp [spaced, List.intercalate]
      rw [hspaced, splitString_append, ih]
      exact List.flatMap_cons.symm

theorem splitString_singleton (h : IsField w) : splitString w = [w] := by
  simpa [spaced] using splitString_spaced (List.cons_ne_nil w []) (List.forall_mem_singleton.mpr h)

theorem splitString_word (h : w ∈ splitString s) : splitString w = [w] := by
  obtain ⟨hmem, hne⟩ := List.mem_filter.mp h
  obtain ⟨u, hu, rfl⟩ := List.mem_map.mp hmem
  exact splitString_singleton ⟨by simpa using hne,
    fun hblank => not_mem_splitOn hu ((trim_sublist u).mem hblank), trim_trim u⟩

theorem flatMap_words (h : ∀ w ∈ words, splitString w = [w]) :
    words.flatMap splitString = words := by
  induction words with
  | nil => rfl
  | cons w words ih =>
    rw [List.flatMap_cons, h w (.head _), ih fun w' hw' => h w' (.tail _ hw'),
      List.singleton_append]

end Words

section Fields
variable {f : Field} {v : Bytes}

section
variable (f : Field)

theorem mem_all : f ∈ Field.all := by
  cases f with
  | pb count => cases count <;> decide
  | _ => decide

theorem fieldOf_name : fieldOf f.name = some f := by
  cases f with
  | pb count => cases count <;> decide
  | _ => decide

theorem name_spec : (∀ x ∈ f.name, isSpace x = false) ∧ 61 ∉ f.name := by
  have hall : f.name.all (!isSpace ·) = true ∧ 61 ∉ f.name := by
    cases f with
    | pb count => cases count <;> decide +kernel
    | _ => decide +kernel
  exact ⟨by simpa using hall.1, hall.2⟩

theorem splitEntry_fieldEntry (v : Bytes) : splitEntry (fieldEntry f v) = some (f, v) := by
  have hname : ∀ x ∈ f.name, (decide (x ≠ 61)) = true := by
    intro x hx
    have hne : x ≠ 61 := fun heq => (name_spec f).2 (heq ▸ hx)
    simpa using hne
  have heq : (decide ((61 : UInt8) ≠ 61)) = false := by decide
  unfold splitEntry fieldEntry
  rw [if_pos (by simp), takeWhile_until hname heq, dropWhile_until hname heq, fieldOf_name,
    Option.map_some, List.tail_cons]

end

theorem fieldEntry_isWord (h : ∀ x ∈ v, isSpace x = false) : IsWord (fieldEntry f v) := by
  constructor
  · simp [fieldEntry]
  · rw [fieldEntry, List.forall_mem_append, List.forall_mem_cons]
    exact ⟨(name_spec f).1, by decide, h⟩

end Fields

section Encode
variable {δ : Type} {env : Env δ} {g : EntryGuard δ} {i : ℕ} {f : Field} {v : Bytes}

/-- The fields that the daemon does not know, in their order. -/
def extraFields (g : EntryGuard δ) : List Bytes := splitString (g.extraStateFields.getD [])

/-- A guard whose texts have no white space, whose dates can be written, and whose extra fields
have keys of their own. A bridge has an address and a port. -/
structure Storable (g : EntryGuard δ) : Prop where
  selectionName : ∀ x ∈ g.selectionName, isSpace x = false
  sampledByVersion : ∀ version ∈ g.sampledByVersion, ∀ x ∈ version, isSpace x = false
  sampledOnDate : Representable g.sampledOnDate
  sampledOnDate_pos : 0 < g.sampledOnDate
  unlistedSinceDate : Representable g.unlistedSinceDate
  confirmedOnDate : Representable g.confirmedOnDate
  confirmedIdx : g.confirmedIdx ≤ int32Max
  bridgeAddr : ∀ a ∈ g.bridgeAddr, a.addr ≠ .unspec ∧ a.port ≠ 0
  extraFields : ∀ entry ∈ extraFields g, splitEntry entry = none

theorem noSpace_nickname (h : isLegalNickname v = true) : ∀ x ∈ v, isSpace x = false := by
  have hchar : ∀ x, isNicknameChar x = true → isSpace x = false := by decide +kernel
  simp only [isLegalNickname, decide_eq_true_eq] at h
  exact fun x hx => hchar x (List.all_eq_true.mp h.2.2 x hx)

theorem noSpace_base16Encode (b : Bytes) : ∀ x ∈ base16Encode b, isSpace x = false := by
  intro x hx
  obtain ⟨y, -, hx⟩ := List.mem_flatMap.mp hx
  simp only [List.mem_cons, List.not_mem_nil, or_false] at hx
  rcases hx with rfl | rfl
  · exact (noSpace_hexDigit y).1
  · exact (noSpace_hexDigit y).2

theorem noSpace_fieldValue (h : Storable g) (hv : fieldValue env g i f = some v) :
    ∀ x ∈ v, isSpace x = false := by
  have hdecimal : ∀ n, ∀ x ∈ decimalString n, isSpace x = false := fun n =>
    (decimalString_isWord n).noSpace
  cases f with
  | selection =>
    cases hv
    exact h.selectionName
  | rsaId =>
    cases hv
    exact noSpace_base16Encode _
  | bridgeAddr =>
    obtain ⟨a, -, rfl⟩ := Option.map_eq_some_iff.mp hv
    rw [List.forall_mem_append, List.forall_mem_cons]
    exact ⟨noSpace_fmtAndDecorateAddr _, by decide, hdecimal _⟩
  | nickname =>
    obtain ⟨hlegal, heq⟩ := Option.ite_none_right_eq_some.mp hv
    cases heq
    exact noSpace_nickname hlegal.2
  | sampledOn =>
    cases hv
    exact noSpace_formatIsoTimeNospace h.sampledOnDate
  | sampledIdx =>
    cases hv
    exact hdecimal _
  | sampledBy => exact h.sampledByVersion v hv
  | unlistedSince =>
    obtain ⟨-, heq⟩ := Option.ite_none_right_eq_some.mp hv
    cases heq
    exact noSpace_formatIsoTimeNospace h.unlistedSinceDate
  | listed =>
    cases hv
    exact hdecimal _
  | confirmedOn =>
    obtain ⟨-, heq⟩ := Option.ite_none_right_eq_some.mp hv
    cases heq
    exact noSpace_formatIsoTimeNospace h.confirmedOnDate
  | confirmedIdx =>
    obtain ⟨hnonneg, heq⟩ := Option.ite_none_right_eq_some.mp hv
    cases heq
    rw [longString, if_neg (not_lt.mpr hnonneg)]
    exact hdecimal _
  | pb count =>
    obtain ⟨-, heq⟩ := Option.ite_none_right_eq_some.mp hv
    cases heq
    exact env.format_noSpace _

/-- The values are those that were written, and the other fields are those that there were. -/
theorem parseFromStateSetVals_encode (h : Storable g) :
    parseFromStateSetVals (entryGuardEncodeForState env g i) =
      ⟨fieldValue env g i, extraFields g⟩ := by
  have hwritten : (written (fieldValue env g i) fieldEntry Field.all).flatMap splitString =
      written (fieldValue env g i) fieldEntry Field.all := by
    apply flatMap_words
    intro w hw
    obtain ⟨f, -, hf⟩ := List.mem_filterMap.mp hw
    obtain ⟨v, hv, rfl⟩ := Option.map_eq_some_iff.mp hf
    exact splitString_singleton (fieldEntry_isWord (noSpace_fieldValue h hv)).isField
  have hextra : g.extraStateFields.toList.flatMap splitString = extraFields g := by
    unfold extraFields
    cases g.extraStateFields with
    | none => rfl
    | some e => simp
  unfold parseFromStateSetVals entryGuardEncodeForState
  rw [splitString_flatMap, List.flatMap_append, hwritten, hextra]
  exact collect_written (fun f v _ => splitEntry_fieldEntry f v) (by decide) mem_all h.extraFields

end Encode

section Parse
variable {δ : Type} {env : Env δ} {g : EntryGuard δ} {i : ℕ}

theorem parseIdentity_encode (identity : Digest) :
    parseIdentity (base16Encode identity.val) = some identity := by
  have hlength : (base16Encode identity.val).length = 40 := by
    simp [base16Encode, identity.property]
  have hdecode := base16Decode_encode identity.val
  rw [identity.property] at hdecode
  unfold parseIdentity
  rw [if_neg (by simp [hlength]), hdecode]
  exact ofLength_of identity.property

theorem parseBridgeAddr_value (h : Storable g) :
    parseBridgeAddr (fieldValue env g i .bridgeAddr) = g.bridgeAddr := by
  dsimp only [parseBridgeAddr, fieldValue]
  cases hbridge : g.bridgeAddr with
  | none => rfl
  | some a =>
    obtain ⟨haddr, hport⟩ := h.bridgeAddr a hbridge
    have hne : a.port.toNat ≠ 0 := fun heq => hport (UInt16.toNat_inj.mp heq)
    have hlt := a.port.toNat_lt
    rw [Option.map_some, Option.bind_some,
      torAddrPortParse_fmt haddr (Nat.one_le_iff_ne_zero.mpr hne) (by omega)]
    simp

theorem handleTime_format {t : ℤ} (h : Representable t) :
    handleTime (some (formatIsoTimeNospace t)) = t := by
  rw [handleTime, parseIsoTimeNospace_format h, Option.getD_some]

theorem parseSampledOn_value (h : Storable g) :
    parseSampledOn env (fieldValue env g i .sampledOn) = g.sampledOnDate := by
  have htime : handleTime (fieldValue env g i .sampledOn) = g.sampledOnDate :=
    handleTime_format h.sampledOnDate
  have hpos := h.sampledOnDate_pos
  rw [parseSampledOn, htime, if_neg (by omega)]

theorem parseDate_some {t : ℤ} (h : Representable t) :
    parseDate (some (formatIsoTimeNospace t)) = t := by
  have hnonneg := h.nonneg
  rw [parseDate, handleTime_format h, if_neg (by omega)]

theorem parseDate_none : parseDate none = 0 := rfl

theorem parseDate_unlistedSince (h : Storable g) :
    parseDate (fieldValue env g i .unlistedSince) = g.unlistedSinceDate := by
  have hnonneg := h.unlistedSinceDate.nonneg
  dsimp only [fieldValue]
  by_cases hpos : 0 < g.unlistedSinceDate
  · rw [if_pos hpos, parseDate_some h.unlistedSinceDate]
  · rw [if_neg hpos, parseDate_none]
    omega

theorem parseDate_confirmedOn (h : Storable g) : parseDate (fieldValue env g i .confirmedOn) =
      if 0 ≤ g.confirmedIdx then g.confirmedOnDate else 0 := by
  dsimp only [fieldValue]
  split_ifs
  · exact parseDate_some h.confirmedOnDate
  · exact parseDate_none

theorem parseConfirmedIdx_value (h : Storable g) :
    parseConfirmedIdx (fieldValue env g i .confirmedIdx) =
      if 0 ≤ g.confirmedIdx then g.confirmedIdx else -1 := by
  dsimp only [parseConfirmedIdx, fieldValue]
  split_ifs with hnonneg
  · rw [Option.bind_some, torParseLong_longString hnonneg h.confirmedIdx, Option.getD_some]
  · rfl

theorem parseSampledIdx_value (hi : (i : ℤ) ≤ int32Max) (confirmedIdx : Option Bytes) :
    parseSampledIdx env (fieldValue env g i .sampledIdx) confirmedIdx = i := by
  exact congrArg (Option.getD · _) (torParseLong_longString (Int.natCast_nonneg i) hi)

theorem listed_value :
    ((fieldValue env g i .listed).any fun text => text ≠ ascii "0") = g.currentlyListed := by
  dsimp only [fieldValue]
  cases g.currentlyListed <;> decide

/-- The guard that is read back. An unconfirmed guard has no date of its confirmation. -/
def restored (env : Env δ) (g : EntryGuard δ) (i : ℕ) : EntryGuard δ :=
  { g with
    nickname := parseNickname (fieldValue env g i .nickname) g.identity
    confirmedOnDate := if 0 ≤ g.confirmedIdx then g.confirmedOnDate else 0
    sampledIdx := i
    confirmedIdx := if 0 ≤ g.confirmedIdx then g.confirmedIdx else -1
    isPersistent := true
    extraStateFields := if extraFields g = [] then none else some (spaced (extraFields g))
    pb := fun count => ((fieldValue env g i (.pb count)).bind env.torParseDouble).getD env.zero
    pathBiasDisabled := false }

def reloaded (env : Env δ) (g : EntryGuard δ) (i : ℕ) : EntryGuard δ :=
  { restored env g i with pathBiasDisabled := env.pathbiasCheck (restored env g i) }

theorem guardOfVals_value (h : Storable g) (hi : (i : ℤ) ≤ int32Max) :
    guardOfVals env (fieldValue env g i) (extraFields g) g.selectionName g.identity =
      restored env g i := by
  unfold guardOfVals restored
  rw [parseSampledOn_value h, parseDate_unlistedSince h, listed_value, parseDate_confirmedOn h,
    parseSampledIdx_value hi, parseConfirmedIdx_value h, parseBridgeAddr_value h]
  rfl

theorem entryGuardParseFromState_encode (h : Storable g) (hi : (i : ℤ) ≤ int32Max) :
    entryGuardParseFromState env (entryGuardEncodeForState env g i) = some (reloaded env g i) := by
  have hselection : fieldValue env g i .selection = some g.selectionName := rfl
  have hrsaId : fieldValue env g i .rsaId = some (base16Encode g.identity.val) := rfl
  unfold entryGuardParseFromState
  rw [parseFromStateSetVals_encode h]
  simp only [Option.bind_eq_bind, hselection, hrsaId, Option.bind_some, parseIdentity_encode,
    guardOfVals_value h hi]
  rfl

theorem extraFields_reloaded : extraFields (reloaded env g i) = extraFields g := by
  have hrestored : extraFields (reloaded env g i) = splitString
      (Option.getD (if extraFields g = [] then none else some (spaced (extraFields g))) []) := rfl
  rw [hrestored]
  split_ifs with hnil
  · rw [hnil]
    rfl
  · exact (splitString_flatMap _).trans (flatMap_words fun _ => splitString_word)

end Parse

end TorDaemon.Client.GuardState
