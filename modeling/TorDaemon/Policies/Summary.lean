import Mathlib.Algebra.Order.BigOperators.Group.List
import TorDaemon.Policies.Addresses
import TorDaemon.SharedRandom.DiskRoundTrip

/-! The summary of an exit policy by ports: how many addresses the policy rejects for each of
them, and whether it accepts them (`policy_summary_*` in `policies.c`). -/
namespace TorDaemon.Policies
open Library.NetworkOrder Library.Scanner SharedRandom

/-- `policy_summary_item_t`. A port is a `uint16_t`, the count a `uint64_t`. -/
structure PolicySummaryItem where
  prtMin : ℕ
  prtMax : ℕ
  rejectCount : ℕ
  accepted : Bool
  deriving DecidableEq

abbrev Summary := List PolicySummaryItem

def policySummaryCreate : Summary :=
  [{ prtMin := 1, prtMax := 65535, rejectCount := 0, accepted := false }]

/-- `policy_summary_item_split`: the item that ends before `newStarts`, and the new one. `none` is
an assertion that fails, here and below. -/
def policySummaryItemSplit (old : PolicySummaryItem) (newStarts : ℕ) :
    Option (PolicySummaryItem × PolicySummaryItem) :=
  let new := { old with prtMin := newStarts }
  let old := { old with prtMax := (newStarts + 2 ^ 16 - 1) % 2 ^ 16 }
  if old.prtMin ≤ old.prtMax ∧ new.prtMin ≤ new.prtMax then some (old, new) else none

section
variable (summary : Summary)

/-- The first half of `policy_summary_split`: the items before the one that starts at `prtMin`,
and those from it on. `none` is also the read of an item behind the last. -/
def policySummarySplitStart (prtMin : ℕ) : Option (Summary × Summary) :=
  let before := summary.takeWhile fun s => s.prtMax < prtMin
  match summary.dropWhile fun s => s.prtMax < prtMin with
  | [] => none
  | s :: after =>
    if s.prtMin ≠ prtMin then
      (policySummaryItemSplit s prtMin).map fun (old, new) => (before ++ [old], new :: after)
    else some (before, s :: after)

/-- The second half: the items, of which one ends at `prtMax`. -/
def policySummarySplitEnd (prtMax : ℕ) : Option Summary :=
  let before := summary.takeWhile fun s => s.prtMax < prtMax
  match summary.dropWhile fun s => s.prtMax < prtMax with
  | [] => none
  | s :: after =>
    if s.prtMax ≠ prtMax then
      (policySummaryItemSplit s ((prtMax + 1) % 2 ^ 16)).map fun (old, new) =>
        before ++ old :: new :: after
    else some (before ++ s :: after)

/-- `policy_summary_split`: the items before the index that it returns, and those from it on. -/
def policySummarySplit (prtMin prtMax : ℕ) : Option (Summary × Summary) := do
  let (before, rest) ← policySummarySplitStart summary prtMin
  let rest ← policySummarySplitEnd rest prtMax
  some (before, rest)

/-- The loops over the items from an index on that end by `prtMax`, and the assertion behind. -/
def policySummaryUpdate (update : PolicySummaryItem → PolicySummaryItem) (prtMax : ℕ)
    (before rest : Summary) : Option Summary :=
  let within := rest.takeWhile fun s => s.prtMax ≤ prtMax
  let after := rest.dropWhile fun s => s.prtMax ≤ prtMax
  if after ≠ [] ∨ prtMax = 65535 then some (before ++ within.map update ++ after) else none

def rejectCutoffScaleIpv4 : ℕ := 0

def rejectCutoffScaleIpv6 : ℕ := 64

/-- The length of a single address mask. -/
def Family.addrbits (family : Family) : ℕ := if family = .inet then 32 else 128

/-- An IPv6 count is one of networks of this size. -/
def Family.scale (family : Family) : ℕ :=
  if family = .inet then rejectCutoffScaleIpv4 else rejectCutoffScaleIpv6

/-- `REJECT_CUTOFF_COUNT_IPV4` and `REJECT_CUTOFF_COUNT_IPV6` -/
def Family.rejectCutoffCount (family : Family) : ℕ :=
  if family = .inet then 2 ^ (32 - rejectCutoffScaleIpv4 - 7)
  else 2 ^ (128 - rejectCutoffScaleIpv6 - 16)

def uint64Max : ℕ := 2 ^ 64 - 1

/-- What an item becomes when its ports are accepted. -/
def PolicySummaryItem.accept (familyRejectCount : ℕ) (s : PolicySummaryItem) : PolicySummaryItem :=
  if !s.accepted ∧ s.rejectCount ≤ familyRejectCount then { s with accepted := true } else s

/-- What an item becomes when addresses are rejected for its ports. -/
def PolicySummaryItem.reject (count : ℕ) (s : PolicySummaryItem) : PolicySummaryItem :=
  if s.rejectCount ≤ uint64Max - count then { s with rejectCount := s.rejectCount + count }
  else { s with rejectCount := uint64Max }

def policySummaryAccept (prtMin prtMax : ℕ) (family : Family) : Option Summary := do
  if family = .unspec then none
  let (before, rest) ← policySummarySplit summary prtMin prtMax
  policySummaryUpdate (PolicySummaryItem.accept family.rejectCutoffCount) prtMax before rest

/-- The number of addresses of a network, as it is counted. -/
def rejectCount (maskbits : ℕ) (family : Family) : ℕ :=
  if family.addrbits - family.scale - maskbits ≥ 64 then uint64Max
  else 2 ^ (family.addrbits - family.scale - maskbits)

/-- `policy_summary_reject`. An IPv4 count that is too large is an assertion that fails. -/
def policySummaryReject (maskbits prtMin prtMax : ℕ) (family : Family) : Option Summary := do
  if family = .unspec then none
  let (before, rest) ← policySummarySplit summary prtMin prtMax
  if family.addrbits < maskbits then none
  -- the addresses are too few to be counted
  if maskbits > family.addrbits - family.scale then
    if family = .inet6 then some (before ++ rest) else none
  else
    let count := rejectCount maskbits family
    let saturates := (rest.takeWhile fun s => s.prtMax ≤ prtMax).any fun s =>
      s.rejectCount > uint64Max - count
    if family = .inet ∧ saturates then none
    else policySummaryUpdate (PolicySummaryItem.reject count) prtMax before rest

/-- An IPv6 address that is zero from the third byte on. -/
def in6 (a b : UInt8) : TorAddr :=
  .inet6 ⟨a :: b :: List.replicate 14 0, rfl⟩

/-- `private_nets`, parsed -/
def privateNets : List (TorAddr × ℕ) :=
  [(.inet 0x00000000, 8), (.inet 0xa9fe0000, 16),
    (.inet 0x7f000000, 8), (.inet 0xc0a80000, 16), (.inet 0x0a000000, 8), (.inet 0xac100000, 12),
    (in6 0 0, 8),
    (in6 0xfc 0, 7), (in6 0xfe 0x80, 10), (in6 0xfe 0xc0, 10), (in6 0xff 0, 8), (in6 0 0, 127)]

/-- `tor_addr_compare` compares all bits. -/
def AddrPolicy.isPrivate (p : AddrPolicy) : Bool :=
  privateNets.any fun (addr, maskbits) =>
    torAddrCompareMasked p.addr addr 128 = 0 ∧ p.maskbits = maskbits

def policySummaryAddItem (p : AddrPolicy) : Option Summary :=
  match p.policyType with
  | .accept =>
    if p.maskbits = 0 then policySummaryAccept summary p.prtMin p.prtMax p.addr.family
    else some summary
  | .reject =>
    if p.isPrivate then some summary
    else policySummaryReject summary p.maskbits p.prtMin p.prtMax p.addr.family

end

/-- A turn of the first loop of `policy_summarize`. -/
def policySummaryTurn (family : Family) (summary : Summary) (p : AddrPolicy) : Option Summary :=
  if p.addr.family ≠ family then some summary else policySummaryAddItem summary p

def policySummary (policy : List AddrPolicy) (family : Family) : Option Summary :=
  policy.foldlM (policySummaryTurn family) policySummaryCreate

/-! ### The rule -/

/-- An entry for all addresses that accepts the port. -/
def AddrPolicy.AcceptsPort (family : Family) (port : ℕ) (e : AddrPolicy) : Prop :=
  e.policyType = .accept ∧ e.maskbits = 0 ∧ e.addr.family = family ∧ e.CoversPort port

/-- An entry that rejects addresses, not of a private network, for the port. -/
def AddrPolicy.RejectsPort (family : Family) (port : ℕ) (e : AddrPolicy) : Prop :=
  e.policyType = .reject ∧ (e.addr, e.maskbits) ∉ privateNets ∧ e.addr.family = family ∧
    e.CoversPort port

instance (family : Family) (port : ℕ) (e : AddrPolicy) : Decidable (e.RejectsPort family port) :=
  inferInstanceAs (Decidable (_ ∧ _))

/-- The addresses of the network of an entry: of IPv6 the networks of the scale's size, while what
is smaller is ignored. -/
def AddrPolicy.addresses (family : Family) (e : AddrPolicy) : ℕ :=
  if e.maskbits ≤ family.addrbits - family.scale then
    2 ^ (family.addrbits - family.scale - e.maskbits)
  else 0

/-- The addresses that the entries reject for a port, as far as 64 bits count. -/
def rejectedAddresses (policy : List AddrPolicy) (family : Family) (port : ℕ) : ℕ :=
  min uint64Max
    ((policy.filter (·.RejectsPort family port)).map (AddrPolicy.addresses family)).sum

/-- The entries before one that accepts the port reject no more addresses than the cutoff. -/
def AcceptedPort (policy : List AddrPolicy) (family : Family) (port : ℕ) : Prop :=
  ∃ pre e post, policy = pre ++ e :: post ∧ e.AcceptsPort family port ∧
    rejectedAddresses pre family port ≤ family.rejectCutoffCount

section
variable {policy pre : List AddrPolicy} {e : AddrPolicy} {family : Family} {port : ℕ}

theorem torAddrCompare_eq_zero {a b : TorAddr} : torAddrCompareMasked a b 128 = 0 ↔ a = b := by
  rw [torAddrCompareMasked_eq_zero]
  cases a with
  | unspec => cases b <;> simp [TorAddr.network]
  | inet a => cases b <;> simp [TorAddr.network, BitVec.toNat_inj]
  | inet6 a =>
    cases b with
    | unspec => simp [TorAddr.network]
    | inet b => simp [TorAddr.network]
    | inet6 b =>
      simp only [TorAddr.network, Nat.min_self, Nat.sub_self, Nat.pow_zero, Nat.div_one,
        Prod.mk.injEq, true_and, TorAddr.inet6.injEq]
      constructor
      · intro h
        exact Subtype.ext (ofBigEndian_inj (a.property.trans b.property.symm) h)
      · intro h
        rw [h]

theorem isPrivate_iff : e.isPrivate = true ↔ (e.addr, e.maskbits) ∈ privateNets := by
  rw [AddrPolicy.isPrivate, List.any_eq_true]
  constructor
  · rintro ⟨⟨addr, maskbits⟩, hmem, h⟩
    obtain ⟨haddr, hbits⟩ := of_decide_eq_true h
    rwa [torAddrCompare_eq_zero.mp haddr, hbits]
  · intro hmem
    exact ⟨_, hmem, decide_eq_true ⟨torAddrCompare_eq_zero.mpr rfl, rfl⟩⟩

theorem rejectedAddresses_append : rejectedAddresses (pre ++ [e]) family port =
      if e.RejectsPort family port then
        min uint64Max (rejectedAddresses pre family port + e.addresses family)
      else rejectedAddresses pre family port := by
  rw [rejectedAddresses, List.filter_append, List.map_append, List.sum_append]
  split_ifs with h
  · rw [List.filter_cons_of_pos (by simpa using h), rejectedAddresses]
    simp only [List.filter_nil, List.map_cons, List.map_nil, List.sum_cons, List.sum_nil]
    omega
  · rw [List.filter_cons_of_neg (by simpa using h)]
    rfl

theorem acceptedPort_append : AcceptedPort (pre ++ [e]) family port ↔
    AcceptedPort pre family port ∨
      e.AcceptsPort family port ∧ rejectedAddresses pre family port ≤ family.rejectCutoffCount := by
  constructor
  · rintro ⟨before, e', post, heq, haccepts, hle⟩
    rcases List.eq_nil_or_concat post with rfl | ⟨post, x, rfl⟩
    · obtain ⟨rfl, hlast⟩ := List.append_inj' heq rfl
      obtain rfl := (List.cons.inj hlast).1
      exact .inr ⟨haccepts, hle⟩
    · rw [List.concat_eq_append, ← List.cons_append, ← List.append_assoc] at heq
      obtain ⟨rfl, -⟩ := List.append_inj' heq rfl
      exact .inl ⟨before, e', post, rfl, haccepts, hle⟩
  · rintro (⟨before, e', post, rfl, haccepts, hle⟩ | ⟨haccepts, hle⟩)
    · exact ⟨before, e', post ++ [e], by simp, haccepts, hle⟩
    · exact ⟨pre, e, [], rfl, haccepts, hle⟩

/-- No IPv4 policy has so many entries that the count gets large. -/
theorem rejectedAddresses_le (policy : List AddrPolicy) (port : ℕ) :
    rejectedAddresses policy .inet port ≤ policy.length * 2 ^ 32 := by
  have hsum : ∀ l : List AddrPolicy, (l.map (AddrPolicy.addresses .inet)).sum ≤
      l.length * 2 ^ 32 := by
    intro l
    have hle := List.sum_le_card_nsmul (l.map (AddrPolicy.addresses .inet)) (2 ^ 32) (by
      intro n hn
      obtain ⟨e, -, rfl⟩ := List.mem_map.mp hn
      rw [AddrPolicy.addresses]
      split
      · exact Nat.pow_le_pow_right (by decide) (Nat.sub_le _ _)
      · exact Nat.zero_le _)
    simpa using hle
  apply (min_le_right _ _).trans
  apply (hsum _).trans
  apply Nat.mul_le_mul_right
  exact List.length_filter_le _ _

end

/-! The text of a policy summary, how it is written (`policy_summarize`) and how it is read back
(`parse_short_policy`). -/

structure ShortPolicyEntry where
  minPort : ℕ
  maxPort : ℕ
  deriving DecidableEq

structure ShortPolicy where
  isAccept : Bool
  entries : List ShortPolicyEntry
  deriving DecidableEq

def maxExitpolicySummaryLen : ℕ := 1000

section Write

/-- `%d`, or `%d-%d` -/
def ShortPolicyEntry.text (e : ShortPolicyEntry) : Bytes :=
  if e.minPort = e.maxPort then decimalString e.minPort
  else decimalString e.minPort ++ 45 :: decimalString e.maxPort

/-- The second loop of `policy_summarize`: the ranges of ports, accepted or not, into which the
items are merged. -/
def summaryRanges (startPrt : ℕ) : Summary → List (Bool × ShortPolicyEntry)
  | [] => []
  | [s] => [(s.accepted, ⟨startPrt, s.prtMax⟩)]
  | s :: s' :: summary =>
    if s.accepted ≠ s'.accepted then
      (s.accepted, ⟨startPrt, s.prtMax⟩) :: summaryRanges s'.prtMin (s' :: summary)
    else summaryRanges startPrt (s' :: summary)

/-- The ranges that are accepted, or those that are not. -/
def Summary.ranges (accepted : Bool) (summary : Summary) : List ShortPolicyEntry :=
  ((summaryRanges 1 summary).filter (·.1 = accepted)).map Prod.snd

/-- `smartlist_join_strings` of the ranges -/
def joinedRanges (ranges : List ShortPolicyEntry) : Bytes :=
  joined 44 (ranges.map ShortPolicyEntry.text)

/-- The pointer moves back from the index to a comma. `none` is the assertion that there is one. -/
def commaBack (s : Bytes) : ℕ → Option ℕ
  | 0 => if s[0]? = some 44 then some 0 else none
  | c + 1 => if s[c + 1]? = some 44 then some (c + 1) else commaBack s c

/-- Both lists are too long. -/
def Oversized (accepts rejects : List ShortPolicyEntry) : Prop :=
  (joinedRanges rejects).length > maxExitpolicySummaryLen - (ascii "reject").length - 1 ∧
    (joinedRanges accepts).length > maxExitpolicySummaryLen - (ascii "accept").length - 1

instance (accepts rejects : List ShortPolicyEntry) : Decidable (Oversized accepts rejects) :=
  inferInstanceAs (Decidable (_ ∧ _))

/-- The end of `policy_summarize`: the shorter one of the two lists. -/
def summarizeRanges (accepts rejects : List ShortPolicyEntry) : Option Bytes :=
  if accepts = [] then some (ascii "reject 1-65535")
  else if rejects = [] then some (ascii "accept 1-65535")
  else
    let acceptsStr := joinedRanges accepts
    let rejectsStr := joinedRanges rejects
    if Oversized accepts rejects then
      (commaBack acceptsStr (maxExitpolicySummaryLen - (ascii "accept").length - 1)).map
        fun c => ascii "accept " ++ acceptsStr.take c
    else if rejectsStr.length < acceptsStr.length then some (ascii "reject " ++ rejectsStr)
    else some (ascii "accept " ++ acceptsStr)

def policySummarize (policy : List AddrPolicy) (family : Family) : Option Bytes := do
  let summary ← policySummary policy family
  summarizeRanges (summary.ranges true) (summary.ranges false)

/-- The summary is cut off at a comma. -/
def SummaryTruncated (policy : List AddrPolicy) (family : Family) : Prop :=
  ∃ summary, policySummary policy family = some summary ∧
    Oversized (summary.ranges true) (summary.ranges false)

end Write

section Parse

/-- The text of a number behind white space and its sign. -/
def unsignedText (s : Bytes) : Bytes :=
  let t := s.dropWhile isSpace
  if t.head? = some 45 ∨ t.head? = some 43 then t.tail else t

/-- `tor_parse_ulong` in base 10: the value, if it is one from `low` to `high`, and what follows
the number. A minus sign takes the value from 2^64. -/
def torParseUlong (s : Bytes) (low high : ℕ) : Option ℕ × Bytes :=
  let negative := (s.dropWhile isSpace).head? = some 45
  let t := unsignedText s
  if t.takeWhile isDigit = [] then (none, s)
  else
    let v := decimal (t.takeWhile isDigit)
    let r := if negative then (2 ^ 64 - v) % 2 ^ 64 else v
    (if 2 ^ 64 ≤ v ∨ r < low ∨ high < r then none else some r, t.dropWhile isDigit)

/-- What a turn of the loop of `parse_short_policy` finds. -/
inductive ParsedEntry
  /-- `bad_ent` -/
  | bad
  /-- `skip_ent`, where no comma follows. -/
  | last
  | skip (next : Bytes)
  | entry (e : ShortPolicyEntry) (next : Bytes)

/-- A turn of the loop, of a text that is not empty. -/
def parseEntry (s : Bytes) : ParsedEntry :=
  match torParseUlong s 1 65535 with
  | (none, next) =>
    if !s.head?.any isDigit ∨ s.head? = some 44 then
      match next.dropWhile (· ≠ 44) with
      | [] => .last
      | _ :: next => .skip next
    else .bad
  | (some low, next) =>
    match next with
    | [] => .entry ⟨low, low⟩ []
    | c :: next =>
      if c = 44 then .entry ⟨low, low⟩ next
      else if c = 45 then
        match torParseUlong next low 65535 with
        | (none, _) => .bad
        | (some high, []) => .entry ⟨low, high⟩ []
        | (some high, c :: next) => if c = 44 then .entry ⟨low, high⟩ next else .bad
      else .bad

theorem unsignedText_length (s : Bytes) : (unsignedText s).length ≤ s.length := by
  have hspace := dropWhile_length_le isSpace s
  rw [unsignedText]
  split_ifs
  · rw [List.length_tail]
    omega
  · exact hspace

theorem torParseUlong_length (s : Bytes) (low high : ℕ) :
    (torParseUlong s low high).2.length ≤ s.length := by
  rw [torParseUlong]
  by_cases hdigits : (unsignedText s).takeWhile isDigit = []
  · rw [if_pos hdigits]
  · rw [if_neg hdigits]
    exact (dropWhile_length_le _ _).trans (unsignedText_length s)

theorem torParseUlong_length_lt {s next : Bytes} {low high v : ℕ}
    (h : torParseUlong s low high = (some v, next)) : next.length < s.length := by
  rw [torParseUlong] at h
  by_cases hdigits : (unsignedText s).takeWhile isDigit = []
  · rw [if_pos hdigits] at h
    exact absurd (congrArg Prod.fst h) (by simp)
  · rw [if_neg hdigits] at h
    have hnext : (unsignedText s).dropWhile isDigit = next := congrArg Prod.snd h
    rw [← hnext]
    exact (dropWhile_length_lt hdigits).trans_le (unsignedText_length s)

/-- What follows is shorter. -/
def ParsedEntry.Shorter (s : Bytes) : ParsedEntry → Prop
  | .skip next => next.length < s.length
  | .entry _ next => next.length < s.length
  | _ => True

theorem parseEntry_shorter (s : Bytes) : (parseEntry s).Shorter s := by
  rw [parseEntry]
  cases hlow : torParseUlong s 1 65535 with
  | mk v next =>
    cases v with
    | none =>
      have hle := torParseUlong_length s 1 65535
      rw [hlow] at hle
      have hdrop := dropWhile_length_le (fun c : UInt8 => decide (c ≠ 44)) next
      dsimp only at hle ⊢
      split
      · split
        · trivial
        · rename_i hcons
          rw [hcons, List.length_cons] at hdrop
          dsimp only [ParsedEntry.Shorter]
          omega
      · trivial
    | some low =>
      have hlt := torParseUlong_length_lt hlow
      cases next with
      | nil => exact hlt
      | cons c next =>
        rw [List.length_cons] at hlt
        dsimp only
        split
        · exact (Nat.lt_succ_self _).trans hlt
        · split
          · cases hhigh : torParseUlong next low 65535 with
            | mk v next' =>
              cases v with
              | none => trivial
              | some high =>
                have hlt' := torParseUlong_length_lt hhigh
                cases next' with
                | nil => exact hlt'.trans ((Nat.lt_succ_self _).trans hlt)
                | cons c next' =>
                  rw [List.length_cons] at hlt'
                  dsimp only
                  split
                  · dsimp only [ParsedEntry.Shorter]
                    omega
                  · trivial
          · trivial

theorem parseEntry_skip_lt {s next : Bytes} (h : parseEntry s = .skip next) :
    next.length < s.length := by
  have hshorter := parseEntry_shorter s
  rw [h] at hshorter
  exact hshorter

theorem parseEntry_entry_lt {s next : Bytes} {e : ShortPolicyEntry}
    (h : parseEntry s = .entry e next) : next.length < s.length := by
  have hshorter := parseEntry_shorter s
  rw [h] at hshorter
  exact hshorter

/-- The loop of `parse_short_policy`, with the entries that it has found. -/
def parseEntries (s : Bytes) (entries : List ShortPolicyEntry) : Option (List ShortPolicyEntry) :=
  if s = [] then some entries
  else if entries.length = maxExitpolicySummaryLen then none
  else
    match _ : parseEntry s with
    | .bad => none
    | .last => some entries
    | .skip next => parseEntries next entries
    | .entry e next => parseEntries next (entries ++ [e])
termination_by s.length
decreasing_by
  · exact parseEntry_skip_lt ‹_›
  · exact parseEntry_entry_lt ‹_›

/-- The text after the keyword. -/
def parseShortPolicyEntries (isAccept : Bool) (summary : Bytes) : Option ShortPolicy := do
  let entries ← parseEntries summary []
  if entries = [] then none else some { isAccept, entries }

def parseShortPolicy (summary : Bytes) : Option ShortPolicy :=
  if (ascii "accept ").isPrefixOf summary then
    parseShortPolicyEntries true (summary.drop (ascii "accept ").length)
  else if (ascii "reject ").isPrefixOf summary then
    parseShortPolicyEntries false (summary.drop (ascii "reject ").length)
  else none

end Parse

/-- `compare_tor_addr_to_short_policy`, of an address that is refused as an internal one, or is
not. `none` is the assertion that there is a port. -/
def compareTorAddrToShortPolicy (refused : Bool) (port : ℕ) (policy : ShortPolicy) :
    Option AddrPolicyResult :=
  if port = 0 then none
  else if refused then some .rejected
  else
    let foundMatch := policy.entries.any fun e => e.minPort ≤ port ∧ port ≤ e.maxPort
    let accept := if foundMatch then policy.isAccept else !policy.isAccept
    if accept then some .probablyAccepted else some .rejected

end TorDaemon.Policies
