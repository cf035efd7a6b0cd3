import TorDaemon.Client.Addressmap

/-! How an address is rewritten with the address map (`addressmap_rewrite`). The address
stands in a buffer of `maxlen` bytes, which holds its terminating zero as well. -/
namespace TorDaemon.Client.Addressmap
open Library.NetworkOrder SharedRandom

section Buffer

/-- A string in a buffer of `maxlen` bytes. -/
abbrev Buffer (maxlen : ℕ) := { text : Bytes // text.length < maxlen }

variable {maxlen : ℕ}

/-- `strlcpy` into the buffer. -/
def strlcpy (dst : Buffer maxlen) (src : Bytes) : Buffer maxlen :=
  ⟨src.take (maxlen - 1), by
    have := dst.property
    rw [List.length_take]
    omega⟩

/-- `strlcat` to the buffer. -/
def strlcat (dst : Buffer maxlen) (src : Bytes) : Buffer maxlen :=
  strlcpy dst (dst.val ++ src)

@[simp] theorem strlcpy_val (dst : Buffer maxlen) (src : Bytes) :
    (strlcpy dst src).val = src.take (maxlen - 1) := rfl

@[simp] theorem strlcat_val (dst : Buffer maxlen) (src : Bytes) :
    (strlcat dst src).val = (dst.val ++ src).take (maxlen - 1) := rfl

end Buffer

/-- The `AMR_FLAG_` bits. -/
structure Flags where
  useIpv4Dns : Bool
  useIpv6Dns : Bool
  useMapaddress : Bool
  useAutomap : Bool
  useTrackexit : Bool
  deriving DecidableEq

/-- Whether the flags allow a mapping to `newAddress` that comes from `source`. -/
def Flags.allow (flags : Flags) (newAddress : Bytes) : AddrMapSrc → Bool
  | .dns =>
    match Net.torAddrParse newAddress with
    | .ok (.inet _) => flags.useIpv4Dns
    | .ok (.inet6 _) => flags.useIpv6Dns
    | _ => true
  | .controller => flags.useMapaddress
  | .torrc => flags.useMapaddress
  | .automap => flags.useAutomap
  | .trackexit => flags.useTrackexit
  | .none => false

section Code
variable (addressmap : Strmap AddressmapEntry) (flags : Flags) {maxlen : ℕ}

/-- The loop of `addressmap_match_superdomains` from `cp` on, with the bytes before `cp`: the
entry, and what the buffer holds then. -/
def matchSuperdomainsFrom (before : Bytes) : Bytes → Option AddressmapEntry × Bytes
  | [] => (none, before)
  | c :: cp =>
    if c = 46 then
      match addressmap.lookup (cp.map toLower) with
      | some val =>
        if val.srcWildcard then
          (some val, if val.dstWildcard then before else before ++ c :: cp)
        else matchSuperdomainsFrom (before ++ [c]) cp
      | none => matchSuperdomainsFrom (before ++ [c]) cp
    else matchSuperdomainsFrom (before ++ [c]) cp

theorem matchSuperdomainsFrom_length (before cp : Bytes) :
    (matchSuperdomainsFrom addressmap before cp).2.length ≤ (before ++ cp).length := by
  fun_induction matchSuperdomainsFrom addressmap before cp with
  | case1 before => simp
  | case2 before cp val hval hsrc =>
    split <;> simp
  | case3 before cp val hval hsrc ih => simpa using ih
  | case4 before cp hval ih => simpa using ih
  | case5 before c cp hc ih => simpa using ih

def addressmapMatchSuperdomains (address : Buffer maxlen) :
    Option AddressmapEntry × Buffer maxlen :=
  ((matchSuperdomainsFrom addressmap [] address.val).1,
    ⟨(matchSuperdomainsFrom addressmap [] address.val).2,
      (matchSuperdomainsFrom_length addressmap [] address.val).trans_lt address.property⟩)

/-- The variables of `addressmap_rewrite`. -/
structure Rewriting (maxlen : ℕ) where
  address : Buffer maxlen
  rewrites : ℕ
  expires : ℤ
  exitSource : AddrMapSrc

/-- The end of a turn, which fills in the new address. -/
def fillIn (addrOrig : Bytes) (ent : AddressmapEntry) (newAddress : Bytes) (exactMatch : Bool)
    (st : Rewriting maxlen) : Rewriting maxlen :=
  let address :=
    if ent.dstWildcard && !exactMatch then
      strlcat (strlcat st.address (ascii ".")) newAddress
    else strlcpy st.address newAddress
  { address := address
    rewrites := st.rewrites + 1
    expires := if 1 < ent.expires ∧ ent.expires < st.expires then ent.expires else st.expires
    exitSource :=
      if strcmpendEq address.val (ascii ".exit") && !strcmpendEq addrOrig (ascii ".exit") &&
          st.exitSource = .none then ent.source
      else st.exitSource }

/-- A turn from the entry on: the entry's new address and the flags are checked, and it is
filled in. The boolean says that the loop is left. -/
def useEntry (addrOrig : Bytes) (ent : AddressmapEntry) (exactMatch : Bool)
    (st : Rewriting maxlen) : Bool × Rewriting maxlen :=
  match ent.newAddress with
  | none => (true, st)
  | some newAddress =>
    if flags.allow newAddress ent.source then
      (false, fillIn addrOrig ent newAddress exactMatch st)
    else (true, st)

/-- The exact match, where it has a new address. -/
def exactEntry (address : Bytes) : Option (AddressmapEntry × Bytes) :=
  (addressmap.lookup address).bind fun ent => ent.newAddress.map fun new => (ent, new)

/-- A rule like `*.example.com example.com`, for the address `example.com`. -/
def isComplete (address : Bytes) (ent : AddressmapEntry) (newAddress : Bytes) : Bool :=
  ent.srcWildcard && !ent.dstWildcard && strcaseeq address newAddress

/-- One turn of the loop. -/
def rewriteTurn (addrOrig : Bytes) (st : Rewriting maxlen) : Bool × Rewriting maxlen :=
  match exactEntry addressmap st.address.val with
  | some (ent, new) =>
    if isComplete st.address.val ent new then (true, st)
    else useEntry flags addrOrig ent true st
  | none =>
    let (ent, address) := addressmapMatchSuperdomains addressmap st.address
    match ent with
    | none => (true, { st with address := address })
    | some ent => useEntry flags addrOrig ent false { st with address := address }

/-- The loop, for the turns that are left. -/
def rewriteLoop (addrOrig : Bytes) : ℕ → Rewriting maxlen → Rewriting maxlen
  | 0, st => st
  | turns + 1, st =>
    match rewriteTurn addressmap flags addrOrig st with
    | (true, st) => st
    | (false, st) => rewriteLoop addrOrig turns st

/-- `addressmap_rewrite`, which returns whether there were any rewrites. -/
def addressmapRewrite (address : Buffer maxlen) : Bool × Rewriting maxlen :=
  let st := rewriteLoop addressmap flags address.val 16 ⟨address, 0, timeMax, .none⟩
  (0 < st.rewrites, st)

end Code

/-! ### The rules -/

/-- A rule of the map for an address, with the part of the address that it keeps. -/
structure Rule where
  ent : AddressmapEntry
  newAddress : Bytes
  front : Option Bytes
  deriving DecidableEq

/-- What the rule makes of the address, in a buffer of `maxlen` bytes. -/
def Rule.result (maxlen : ℕ) (rule : Rule) : Bytes :=
  match rule.front with
  | none => rule.newAddress.take (maxlen - 1)
  | some front => (front ++ ascii "." ++ rule.newAddress).take (maxlen - 1)

/-- An address at each of its dots: the bytes before it and those after it. -/
def atDots (before : Bytes) : Bytes → List (Bytes × Bytes)
  | [] => []
  | c :: cp =>
    if c = 46 then (before, cp) :: atDots (before ++ [c]) cp else atDots (before ++ [c]) cp

section Rules
variable (addressmap : Strmap AddressmapEntry) (flags : Flags) (maxlen : ℕ)

/-- The wildcard entry for the longest of the address's superdomains that has one, and what
stands before the superdomain. -/
def wildcardEntry (address : Bytes) : Option (Bytes × AddressmapEntry) :=
  (atDots [] address).findSome? fun p =>
    ((addressmap.lookup (p.2.map toLower)).filter (·.srcWildcard)).map fun ent => (p.1, ent)

/-- The rule that the map has for the address. -/
def ruleFor (address : Bytes) : Option Rule :=
  match exactEntry addressmap address with
  | some (ent, new) => if isComplete address ent new then none else some ⟨ent, new, none⟩
  | none =>
    (wildcardEntry addressmap address).bind fun p =>
      p.2.newAddress.map fun new => ⟨p.2, new, if p.2.dstWildcard then some p.1 else none⟩

/-- The rule, where the flags let it be used. -/
def usableRule (address : Bytes) : Option Rule :=
  (ruleFor addressmap address).filter fun rule => flags.allow rule.newAddress rule.ent.source

/-- The rules are those for the addresses one after the other. -/
inductive Applies : Bytes → List Rule → Bytes → Prop
  | nil (a : Bytes) : Applies a [] a
  | cons {a b : Bytes} {rule : Rule} {rules : List Rule} :
      usableRule addressmap flags a = some rule → Applies (rule.result maxlen) rules b →
      Applies a (rule :: rules) b

end Rules

/-! ### What the loop does -/

/-- What a matched wildcard entry leaves in the buffer of an address. -/
def leftover (address : Bytes) : Option (Bytes × AddressmapEntry) → Bytes
  | some (before, ent) => if ent.dstWildcard then before else address
  | none => address

section Loop
variable {addressmap : Strmap AddressmapEntry} {flags : Flags} {maxlen : ℕ} {rules : List Rule}

theorem matchSuperdomainsFrom_eq (before cp : Bytes) : matchSuperdomainsFrom addressmap before cp =
      let found := (atDots before cp).findSome? fun p =>
        ((addressmap.lookup (p.2.map toLower)).filter (·.srcWildcard)).map fun ent => (p.1, ent)
      (found.map (·.2), leftover (before ++ cp) found) := by
  fun_induction matchSuperdomainsFrom addressmap before cp with
  | case1 before => simp [atDots, leftover]
  | case2 before cp val hval hsrc => simp [atDots, hval, Option.filter_some_pos, hsrc, leftover]
  | case3 before cp val hval hsrc ih => simp [ih, atDots, hval, hsrc]
  | case4 before cp hval ih => simp [ih, atDots, hval]
  | case5 before c cp hc ih => simp [ih, atDots, hc]

section
variable (addressmap : Strmap AddressmapEntry)

theorem addressmapMatchSuperdomains_fst
    (address : Buffer maxlen) : (addressmapMatchSuperdomains addressmap address).1 =
      (wildcardEntry addressmap address.val).map (·.2) := by
  simp [addressmapMatchSuperdomains, matchSuperdomainsFrom_eq, wildcardEntry]

theorem addressmapMatchSuperdomains_snd
    (address : Buffer maxlen) : (addressmapMatchSuperdomains addressmap address).2.val =
      leftover address.val (wildcardEntry addressmap address.val) := by
  simp [addressmapMatchSuperdomains, matchSuperdomainsFrom_eq, wildcardEntry]

/-- What is in the buffer of an address that no rule may be used for. -/
def remains (address : Bytes) : Bytes :=
  match exactEntry addressmap address with
  | some _ => address
  | none => leftover address (wildcardEntry addressmap address)

end

/-- The source that is kept of a rule whose result is `result`. -/
def exitSourceAfter (addrOrig result : Bytes) (source exitSource : AddrMapSrc) : AddrMapSrc :=
  if strcmpendEq result (ascii ".exit") && !strcmpendEq addrOrig (ascii ".exit") &&
      exitSource = .none then source
  else exitSource

theorem Rule.result_length (rule : Rule) (dst : Buffer maxlen) :
    (rule.result maxlen).length < maxlen := by
  unfold Rule.result
  split <;> rw [List.length_take] <;> omega

/-- The variables after a turn in which the rule is used. -/
def Rewriting.after (addrOrig : Bytes) (rule : Rule) (st : Rewriting maxlen) : Rewriting maxlen :=
  { address := ⟨rule.result maxlen, rule.result_length st.address⟩
    rewrites := st.rewrites + 1
    expires :=
      if 1 < rule.ent.expires ∧ rule.ent.expires < st.expires then rule.ent.expires
      else st.expires
    exitSource :=
      exitSourceAfter addrOrig (rule.result maxlen) rule.ent.source st.exitSource }

theorem take_append_take (k : ℕ) (a b : Bytes) : (a.take k ++ b).take k = (a ++ b).take k := by
  rw [List.take_append, List.take_append, List.take_take, Nat.min_self, List.length_take]
  congr 2
  omega

theorem fillIn_eq (addrOrig : Bytes) (ent : AddressmapEntry) (new : Bytes) (exact : Bool)
    (address : Buffer maxlen) (st : Rewriting maxlen) :
    fillIn addrOrig ent new exact { st with address := address } =
      st.after addrOrig ⟨ent, new,
        if ent.dstWildcard && !exact then some address.val else none⟩ := by
  have haddress : (if ent.dstWildcard && !exact then
      strlcat (strlcat address (ascii ".")) new else strlcpy address new).val =
      Rule.result maxlen ⟨ent, new,
        if ent.dstWildcard && !exact then some address.val else none⟩ := by
    split
    · simp [Rule.result, take_append_take]
    · simp [Rule.result]
  simp only [fillIn, Rewriting.after, exitSourceAfter, haddress, Rewriting.mk.injEq, and_true]
  exact Subtype.ext haddress

theorem newAddress_of_exactEntry {address : Bytes} {ent : AddressmapEntry} {new : Bytes}
    (h : exactEntry addressmap address = some (ent, new)) : ent.newAddress = some new := by
  obtain ⟨found, -, hnew⟩ := Option.bind_eq_some_iff.mp h
  obtain ⟨_, hfound, heq⟩ := Option.map_eq_some_iff.mp hnew
  cases heq
  exact hfound

theorem useEntry_eq (flags : Flags) (addrOrig : Bytes) {ent : AddressmapEntry} {new : Bytes}
    (hnew : ent.newAddress = some new) (exact : Bool) (address : Buffer maxlen)
    (st : Rewriting maxlen) : useEntry flags addrOrig ent exact { st with address := address } =
      if flags.allow new ent.source then
        (false, st.after addrOrig ⟨ent, new,
          if ent.dstWildcard && !exact then some address.val else none⟩)
      else (true, { st with address := address }) := by
  simp [useEntry, hnew, fillIn_eq]

theorem rewriteTurn_of_usable (addrOrig : Bytes) {st : Rewriting maxlen} {rule : Rule}
    (h : usableRule addressmap flags st.address.val = some rule) :
    rewriteTurn addressmap flags addrOrig st = (false, st.after addrOrig rule) := by
  obtain ⟨hrule, hallow⟩ := Option.filter_eq_some_iff.mp h
  unfold ruleFor at hrule
  unfold rewriteTurn
  cases hexact : exactEntry addressmap st.address.val with
  | some p =>
    rw [hexact] at hrule
    dsimp only at hrule ⊢
    split at hrule
    · cases hrule
    · rename_i hcomplete
      cases hrule
      rw [if_neg hcomplete]
      have hturn := useEntry_eq flags addrOrig (newAddress_of_exactEntry hexact) true
        st.address st
      rw [if_pos hallow] at hturn
      simpa using hturn
  | none =>
    rw [hexact] at hrule
    obtain ⟨⟨before, ent⟩, hwild, hmap⟩ := Option.bind_eq_some_iff.mp hrule
    obtain ⟨new, hnew, rfl⟩ := Option.map_eq_some_iff.mp hmap
    have hfst := addressmapMatchSuperdomains_fst addressmap st.address
    have hsnd := addressmapMatchSuperdomains_snd addressmap st.address
    rw [hwild] at hfst hsnd
    dsimp only
    rw [hfst]
    have hturn := useEntry_eq flags addrOrig hnew false
      (addressmapMatchSuperdomains addressmap st.address).2 st
    rw [if_pos hallow, hsnd] at hturn
    refine hturn.trans ?_
    congr 3
    cases hdst : ent.dstWildcard <;> simp [leftover, hdst]

theorem rewriteTurn_of_unusable (addrOrig : Bytes) {st : Rewriting maxlen}
    (h : usableRule addressmap flags st.address.val = none) :
    ∃ address : Buffer maxlen, address.val = remains addressmap st.address.val ∧
      rewriteTurn addressmap flags addrOrig st = (true, { st with address := address }) := by
  unfold usableRule ruleFor at h
  unfold rewriteTurn remains
  cases hexact : exactEntry addressmap st.address.val with
  | some p =>
    rw [hexact] at h
    refine ⟨st.address, rfl, ?_⟩
    dsimp only at h ⊢
    split
    · rfl
    · rename_i hcomplete
      rw [if_neg hcomplete] at h
      have hturn := useEntry_eq flags addrOrig (newAddress_of_exactEntry hexact) true
        st.address st
      rw [if_neg (by simpa using h)] at hturn
      exact hturn
  | none =>
    rw [hexact] at h
    have hfst := addressmapMatchSuperdomains_fst addressmap st.address
    refine ⟨_, addressmapMatchSuperdomains_snd addressmap st.address, ?_⟩
    dsimp only
    rw [hfst]
    cases hwild : wildcardEntry addressmap st.address.val with
    | none => rfl
    | some p =>
      rw [hwild] at h
      cases hnew : p.2.newAddress with
      | none => simp [useEntry, hnew]
      | some new =>
        have hturn := useEntry_eq flags addrOrig hnew false
          (addressmapMatchSuperdomains addressmap st.address).2 st
        rw [if_neg (by simpa [hnew] using h)] at hturn
        exact hturn

/-- The loop uses the rules one after the other, until it runs out of turns or stands at an
address that no rule may be used for. -/
theorem rewriteLoop_eq (addressmap : Strmap AddressmapEntry) (flags : Flags) (addrOrig : Bytes)
    (turns : ℕ) (st : Rewriting maxlen) :
    ∃ (rules : List Rule) (b : Bytes) (address : Buffer maxlen),
      Applies addressmap flags maxlen st.address.val rules b ∧
      (rules.length = turns ∧ address.val = b ∨
        rules.length < turns ∧ usableRule addressmap flags b = none ∧
          address.val = remains addressmap b) ∧
      rewriteLoop addressmap flags addrOrig turns st =
        { rules.foldl (fun st rule => st.after addrOrig rule) st with address := address } := by
  induction turns generalizing st with
  | zero => exact ⟨[], _, st.address, .nil _, .inl ⟨rfl, rfl⟩, rfl⟩
  | succ turns ih =>
    unfold rewriteLoop
    cases hrule : usableRule addressmap flags st.address.val with
    | none =>
      obtain ⟨address, haddress, hturn⟩ := rewriteTurn_of_unusable addrOrig hrule
      rw [hturn]
      exact ⟨[], _, address, .nil _, .inr ⟨turns.succ_pos, hrule, haddress⟩, rfl⟩
    | some rule =>
      rw [rewriteTurn_of_usable addrOrig hrule]
      obtain ⟨rules, b, address, happlies, hend, hloop⟩ := ih (st.after addrOrig rule)
      refine ⟨rule :: rules, b, address, .cons hrule happlies, ?_, hloop⟩
      simpa using hend

theorem Applies.unique {a b b' : Bytes} {rules' : List Rule}
    (h : Applies addressmap flags maxlen a rules b)
    (h' : Applies addressmap flags maxlen a rules' b') (hlen : rules.length = rules'.length) :
    rules = rules' ∧ b = b' := by
  induction h generalizing rules' with
  | nil a =>
    cases h' with
    | nil => exact ⟨rfl, rfl⟩
    | cons => simp at hlen
  | cons hrule _ ih =>
    cases h' with
    | nil => simp at hlen
    | cons hrule' h' =>
      cases hrule.symm.trans hrule'
      obtain ⟨rfl, rfl⟩ := ih h' (by simpa using hlen)
      exact ⟨rfl, rfl⟩

/-- A chain to an address that no rule may be used for is a longest one. -/
theorem Applies.length_le {a b b' : Bytes} {rules' : List Rule}
    (h : Applies addressmap flags maxlen a rules b) (hend : usableRule addressmap flags b = none)
    (h' : Applies addressmap flags maxlen a rules' b') : rules'.length ≤ rules.length := by
  induction h generalizing rules' with
  | nil a =>
    cases h' with
    | nil => exact le_rfl
    | cons hrule' _ => cases hend.symm.trans hrule'
  | cons hrule _ ih =>
    cases h' with
    | nil => exact Nat.zero_le _
    | cons hrule' h' =>
      cases hrule.symm.trans hrule'
      exact Nat.succ_le_succ (ih hend h')

theorem Applies.source_ne {a b : Bytes} (h : Applies addressmap flags maxlen a rules b) :
    ∀ rule ∈ rules, rule.ent.source ≠ .none := by
  induction h with
  | nil => simp
  | @cons _ _ rule _ hrule _ ih =>
    refine List.forall_mem_cons.mpr ⟨fun hnone => ?_, ih⟩
    have := (Option.filter_eq_some_iff.mp hrule).2
    rw [hnone] at this
    cases this

end Loop

/-! ### What is reported -/

/-- The least of the expiry times of the rules, of those that are greater than 1. -/
def leastExpiry (rules : List Rule) : ℤ :=
  ((rules.map (·.ent.expires)).filter (1 < ·)).foldl min timeMax

/-- The source of the first rule that makes an address in `.exit` of one that is not. -/
def firstExitSource (maxlen : ℕ) (addrOrig : Bytes) (rules : List Rule) : AddrMapSrc :=
  if strcmpendEq addrOrig (ascii ".exit") then .none
  else
    ((rules.find? fun rule => strcmpendEq (rule.result maxlen) (ascii ".exit")).map
      fun rule => rule.ent.source).getD .none

section Report
variable {maxlen : ℕ} (addrOrig : Bytes)

section
variable (rules : List Rule)

section
variable (st : Rewriting maxlen)

theorem foldl_after_rewrites : (rules.foldl (fun st rule => st.after addrOrig rule) st).rewrites =
      st.rewrites + rules.length := by
  induction rules generalizing st with
  | nil => rfl
  | cons rule rules ih =>
    rw [List.foldl_cons, ih, List.length_cons, Rewriting.after]
    dsimp only
    omega

theorem foldl_after_expires : (rules.foldl (fun st rule => st.after addrOrig rule) st).expires =
      ((rules.map (·.ent.expires)).filter (1 < ·)).foldl min st.expires := by
  induction rules generalizing st with
  | nil => rfl
  | cons rule rules ih =>
    rw [List.foldl_cons, ih, List.map_cons, Rewriting.after]
    by_cases hgt : 1 < rule.ent.expires
    · rw [List.filter_cons_of_pos (by simpa using hgt), List.foldl_cons]
      congr 1
      dsimp only
      split <;> omega
    · rw [List.filter_cons_of_neg (by simpa using hgt), if_neg (fun h => hgt h.1)]

theorem foldl_after_exitSource_of_ne
    (h : st.exitSource ≠ .none) :
    (rules.foldl (fun st rule => st.after addrOrig rule) st).exitSource = st.exitSource := by
  induction rules generalizing st with
  | nil => rfl
  | cons rule rules ih =>
    have hafter : (st.after addrOrig rule).exitSource = st.exitSource := by
      simp [Rewriting.after, exitSourceAfter, h]
    rw [List.foldl_cons, ih _ (by rwa [hafter]), hafter]

theorem foldl_after_exitSource
    (hnone : st.exitSource = .none) (h : ∀ rule ∈ rules, rule.ent.source ≠ .none) :
    (rules.foldl (fun st rule => st.after addrOrig rule) st).exitSource =
      firstExitSource maxlen addrOrig rules := by
  induction rules generalizing st with
  | nil => simp [firstExitSource, hnone]
  | cons rule rules ih =>
    obtain ⟨hrule, hrules⟩ := List.forall_mem_cons.mp h
    rw [List.foldl_cons]
    cases horig : strcmpendEq addrOrig (ascii ".exit") with
    | true =>
      rw [ih _ (by simp [Rewriting.after, exitSourceAfter, horig, hnone]) hrules]
      simp [firstExitSource, horig]
    | false =>
      cases hresult : strcmpendEq (rule.result maxlen) (ascii ".exit") with
      | true =>
        have hafter : (st.after addrOrig rule).exitSource = rule.ent.source := by
          simp [Rewriting.after, exitSourceAfter, horig, hnone, hresult]
        rw [foldl_after_exitSource_of_ne _ _ _ (by rwa [hafter]), hafter]
        simp [firstExitSource, horig, hresult]
      | false =>
        rw [ih _ (by simp [Rewriting.after, exitSourceAfter, hresult, hnone]) hrules]
        simp [firstExitSource, horig, hresult]

end

end

end Report

/-! ### The rewriting is right but for half-applied rules -/

section Right
variable (addressmap : Strmap AddressmapEntry) (flags : Flags) {maxlen : ℕ}

/-- The longest superdomain with a wildcard entry has one like `*.c.d *.e.f`, which may not be
used: it is in the buffer that the address has been truncated for it. -/
def HalfApplies (address : Bytes) : Prop :=
  exactEntry addressmap address = none ∧
    ∃ before ent, wildcardEntry addressmap address = some (before, ent) ∧
      ent.dstWildcard = true ∧ ∀ new ∈ ent.newAddress, flags.allow new ent.source = false

/-- What is said of the rewriting of `address`. -/
structure RewritesRight (address : Buffer maxlen) (out : Bool × Rewriting maxlen) : Prop where
  atMost : out.2.rewrites ≤ 16
  unchanged : out.1 = false → out.2.address = address
  applied : ∃ rules, Applies addressmap flags maxlen address.val rules out.2.address.val ∧
    rules.length = out.2.rewrites ∧ (out.1 = true ↔ rules ≠ []) ∧
    (rules.length = 16 ∨ usableRule addressmap flags out.2.address.val = none) ∧
    out.2.expires = leastExpiry rules ∧
    out.2.exitSource = firstExitSource maxlen address.val rules

variable {addressmap flags}

theorem length_of_mem_atDots {before cp : Bytes} {p : Bytes × Bytes} (h : p ∈ atDots before cp) :
    p.1.length < (before ++ cp).length := by
  fun_induction atDots before cp with
  | case1 before => cases h
  | case2 before cp ih =>
    rcases List.mem_cons.mp h with rfl | h
    · simp
    · simpa using ih h
  | case3 before c cp hc ih => simpa using ih h

theorem length_of_wildcardEntry {address before : Bytes} {ent : AddressmapEntry}
    (h : wildcardEntry addressmap address = some (before, ent)) :
    before.length < address.length := by
  obtain ⟨p, hp, hmap⟩ := List.exists_of_findSome?_eq_some h
  obtain ⟨_, _, heq⟩ := Option.map_eq_some_iff.mp hmap
  cases heq
  exact length_of_mem_atDots hp

theorem usableRule_of_halfApplies {address : Bytes} (h : HalfApplies addressmap flags address) :
    usableRule addressmap flags address = none := by
  obtain ⟨hexact, before, ent, hwild, -, hallow⟩ := h
  rw [usableRule, ruleFor, hexact]
  cases hnew : ent.newAddress with
  | none => simp [hwild, hnew]
  | some new => simp [hwild, hnew, hallow new hnew]

theorem remains_of_not_halfApplies {address : Bytes}
    (hend : usableRule addressmap flags address = none)
    (h : ¬HalfApplies addressmap flags address) : remains addressmap address = address := by
  unfold remains
  cases hexact : exactEntry addressmap address with
  | some p => rfl
  | none =>
    cases hwild : wildcardEntry addressmap address with
    | none => rfl
    | some p =>
      obtain ⟨before, ent⟩ := p
      refine if_neg fun hdst => h ⟨hexact, before, ent, hwild, hdst, fun new hnew => ?_⟩
      rw [usableRule, ruleFor, hexact] at hend
      simpa [hwild, Option.mem_def.mp hnew] using hend

theorem remains_ne_of_halfApplies {address : Bytes} (h : HalfApplies addressmap flags address) :
    remains addressmap address ≠ address := by
  obtain ⟨hexact, before, ent, hwild, hdst, -⟩ := h
  have hlt := length_of_wildcardEntry hwild
  intro heq
  rw [remains, hexact] at heq
  simp only [hwild, leftover, hdst, if_true] at heq
  exact hlt.ne (congrArg List.length heq)

theorem addressmapRewrite_eq (addressmap : Strmap AddressmapEntry) (flags : Flags)
    (address : Buffer maxlen) : ∃ (rules : List Rule) (b : Bytes) (final : Buffer maxlen),
      Applies addressmap flags maxlen address.val rules b ∧
      (rules.length = 16 ∧ final.val = b ∨
        rules.length < 16 ∧ usableRule addressmap flags b = none ∧
          final.val = remains addressmap b) ∧
      addressmapRewrite addressmap flags address =
        (decide (0 < rules.length), ⟨final, rules.length, leastExpiry rules,
          firstExitSource maxlen address.val rules⟩) := by
  obtain ⟨rules, b, final, happlies, hend, hloop⟩ := rewriteLoop_eq addressmap flags
    address.val 16 ⟨address, 0, timeMax, .none⟩
  refine ⟨rules, b, final, happlies, hend, ?_⟩
  have hrewrites := foldl_after_rewrites address.val rules ⟨address, 0, timeMax, .none⟩
  have hexpires := foldl_after_expires address.val rules ⟨address, 0, timeMax, .none⟩
  have hexit := foldl_after_exitSource address.val rules ⟨address, 0, timeMax, .none⟩ rfl
    happlies.source_ne
  rw [Nat.zero_add] at hrewrites
  rw [addressmapRewrite, hloop]
  simp only [hrewrites, hexpires, hexit]
  rfl

/-- The rewriting is right exactly where no address on the way has a rule that is applied by
half. -/
theorem addressmapRewrite_right_iff (address : Buffer maxlen) :
    RewritesRight addressmap flags address (addressmapRewrite addressmap flags address) ↔
      ∀ rules b, Applies addressmap flags maxlen address.val rules b → rules.length < 16 →
        ¬HalfApplies addressmap flags b := by
  obtain ⟨rules, b, final, happlies, hend, heq⟩ := addressmapRewrite_eq addressmap flags
    address
  rw [heq]
  constructor
  · rintro ⟨-, -, rules', happlies', hlen', -⟩ rules₀ b₀ happlies₀ hlt hhalf
    have hnone := usableRule_of_halfApplies hhalf
    have hle := happlies₀.length_le hnone happlies
    rcases hend with ⟨hfull, -⟩ | ⟨-, hnoneb, hfinal⟩
    · omega
    have hle' := happlies.length_le hnoneb happlies₀
    obtain ⟨-, rfl⟩ := happlies₀.unique happlies (le_antisymm hle' hle)
    obtain ⟨-, hsame⟩ := happlies'.unique happlies hlen'
    exact remains_ne_of_halfApplies hhalf (hfinal.symm.trans hsame)
  · intro h
    have hb : final.val = b := by
      rcases hend with ⟨-, hb⟩ | ⟨hlt, hnone, hb⟩
      · exact hb
      · exact hb.trans (remains_of_not_halfApplies hnone (h rules b happlies hlt))
    refine ⟨?_, fun hzero => ?_, rules, hb ▸ happlies, rfl, ?_, ?_, rfl, rfl⟩
    · dsimp only
      omega
    · have hnil : rules = [] := by simpa using hzero
      subst hnil
      cases happlies
      exact Subtype.ext hb
    · simp [List.length_pos_iff]
    · dsimp only
      rw [hb]
      exact hend.imp And.left fun h => h.2.1

end Right

/-! ### A rule applied by half -/

/-- An automapped name, and `MapAddress *.c.d *.e.f`. -/
def halfAppliedMap : Strmap AddressmapEntry :=
  (AList.insert (ascii "x.virtual") ⟨some (ascii "foo.c.d"), 1, .automap, false, false⟩
    (AList.insert (ascii "c.d") ⟨some (ascii "e.f"), 0, .torrc, true, true⟩ ∅))

/-- The flags of the second call in `connection_ap_handshake_rewrite`. -/
def automapFlags : Flags := ⟨false, false, false, true, true⟩

def automappedName : Buffer 256 := ⟨ascii "x.virtual", by decide⟩

/-- `foo.c.d` is left as `foo`. -/
theorem addressmapRewrite_half : ¬RewritesRight halfAppliedMap automapFlags automappedName
      (addressmapRewrite halfAppliedMap automapFlags automappedName) := by
  rintro ⟨-, -, rules, happlies, hlen, -⟩
  have haddress : (addressmapRewrite halfAppliedMap automapFlags automappedName).2.address.val =
      ascii "foo" := by decide
  have hrewrites : (addressmapRewrite halfAppliedMap automapFlags automappedName).2.rewrites =
      1 := by decide
  rw [hrewrites] at hlen
  rw [haddress] at happlies
  obtain ⟨rule, rfl⟩ := List.length_eq_one_iff.mp hlen
  cases happlies with
  | cons hrule hnil =>
    have hresult : (usableRule halfAppliedMap automapFlags automappedName.val).map
        (·.result 256) ≠ some (ascii "foo") := by decide
    rw [hrule] at hresult
    generalize hfoo : ascii "foo" = foo at hnil hresult
    cases hnil
    exact hresult rfl

end TorDaemon.Client.Addressmap
