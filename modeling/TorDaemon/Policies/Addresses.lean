import TorDaemon.Library.DecisionList
import TorDaemon.Library.NetworkOrder

/-! IP addresses, and their comparison under a mask (`address.c`). -/
namespace TorDaemon.Policies
open Library Library.NetworkOrder

section Addresses

inductive Family
  | unspec
  | inet
  | inet6
  deriving DecidableEq

/-- `AF_UNSPEC`, `AF_INET` and `AF_INET6`. -/
def Family.code : Family → ℕ
  | .unspec => 0
  | .inet => 2
  | .inet6 => 10

abbrev In6Addr := { bytes : Bytes // bytes.length = 16 }

theorem zeros_length : (List.replicate 16 (0 : UInt8)).length = 16 := rfl

/-- `tor_addr_t`, except for socket paths, which no policy has. An IPv4 address is in host
order. -/
inductive TorAddr
  | unspec
  | inet (addr : BitVec 32)
  | inet6 (addr : In6Addr)
  deriving DecidableEq

def TorAddr.family : TorAddr → Family
  | .unspec => .unspec
  | .inet _ => .inet
  | .inet6 _ => .inet6

def TorAddr.isNull : TorAddr → Bool
  | .unspec => true
  | .inet addr => addr = 0
  | .inet6 addr => addr.val.all (· = 0)

def tristate (a b : ℕ) : ℤ := if a < b then -1 else if a = b then 0 else 1

/-- `tor_memcmp` of texts of one length: the sign is that of the first difference. -/
def torMemcmp : Bytes → Bytes → ℤ
  | a :: as, b :: bs => if a = b then torMemcmp as bs else tristate a.toNat b.toNat
  | _, _ => 0

/-- `tor_addr_compare_masked`, with `CMP_EXACT` -/
def torAddrCompareMasked (addr1 addr2 : TorAddr) (mbits : ℕ) : ℤ :=
  match addr1, addr2 with
  | .unspec, .unspec => 0
  | .inet a1, .inet a2 =>
    if mbits = 0 then 0
    else
      let mbits := min mbits 32
      tristate (a1 >>> (32 - mbits)).toNat (a2 >>> (32 - mbits)).toNat
  | .inet6 a1, .inet6 a2 =>
    let mbits := min mbits 128
    let bytes := mbits >>> 3
    let leftoverBits := mbits &&& 7
    let r := torMemcmp (a1.val.take bytes) (a2.val.take bytes)
    if bytes ≠ 0 ∧ r ≠ 0 then r
    else if leftoverBits ≠ 0 then
      tristate ((a1.val.getD bytes 0).toNat >>> (8 - leftoverBits))
        ((a2.val.getD bytes 0).toNat >>> (8 - leftoverBits))
    else 0
  | _, _ => tristate addr1.family.code addr2.family.code

/-! ### The network of an address -/

/-- The first bits of an address, as a number. -/
def TorAddr.network (mbits : ℕ) : TorAddr → Family × ℕ
  | .unspec => (.unspec, 0)
  | .inet addr => (.inet, addr.toNat / 2 ^ (32 - min mbits 32))
  | .inet6 addr => (.inet6, ofBigEndian addr.val / 2 ^ (128 - min mbits 128))

variable {a b : TorAddr} {mbits mbits' : ℕ}

theorem tristate_eq_zero {m n : ℕ} : tristate m n = 0 ↔ m = n := by
  unfold tristate
  split_ifs with hlt heq
  · exact iff_of_false (by decide) (Nat.ne_of_lt hlt)
  · exact iff_of_true rfl heq
  · exact iff_of_false (by decide) heq

theorem torMemcmp_eq_zero {a b : Bytes} (hlen : a.length = b.length) :
    torMemcmp a b = 0 ↔ a = b := by
  induction a generalizing b with
  | nil => simp [torMemcmp, List.length_eq_zero_iff.mp hlen.symm]
  | cons x a ih =>
    cases b with
    | nil => simp at hlen
    | cons y b =>
      simp only [torMemcmp, List.cons.injEq]
      by_cases hxy : x = y
      · simp [hxy, ih (by simpa using hlen)]
      · simp [hxy, tristate_eq_zero, UInt8.toNat_inj]

theorem compareInet_eq_zero {a b : BitVec 32} : torAddrCompareMasked (.inet a) (.inet b) mbits = 0 ↔
      a.toNat / 2 ^ (32 - min mbits 32) = b.toNat / 2 ^ (32 - min mbits 32) := by
  unfold torAddrCompareMasked
  by_cases hzero : mbits = 0
  · have ha := a.isLt
    have hb := b.isLt
    simp [hzero, Nat.div_eq_of_lt ha, Nat.div_eq_of_lt hb]
  · simp only [if_neg hzero, tristate_eq_zero, BitVec.toNat_ushiftRight,
      Nat.shiftRight_eq_div_pow]

theorem ofBigEndian_in6_lt (a : In6Addr) : ofBigEndian a.val < 2 ^ 128 := by
  have hlt := ofBigEndian_lt a.val
  rw [a.property, show (256 : ℕ) = 2 ^ 8 by rfl, ← Nat.pow_mul] at hlt
  exact hlt

/-- The bytes that the mask fills are compared first, and then what is left over. -/
theorem compareInet6_eq_zero {a b : In6Addr} :
    torAddrCompareMasked (.inet6 a) (.inet6 b) mbits = 0 ↔
      ofBigEndian a.val / 2 ^ (128 - min mbits 128) =
        ofBigEndian b.val / 2 ^ (128 - min mbits 128) := by
  have hshift : min mbits 128 >>> 3 = min mbits 128 / 8 := Nat.shiftRight_eq_div_pow _ 3
  have hand : min mbits 128 &&& 7 = min mbits 128 % 8 := Nat.and_two_pow_sub_one_eq_mod _ 3
  unfold torAddrCompareMasked
  simp only [hshift, hand]
  generalize hk : min mbits 128 / 8 = k
  generalize hr : min mbits 128 % 8 = r
  have hmbits : min mbits 128 = 8 * k + r := by omega
  have hbytes : torMemcmp (a.val.take k) (b.val.take k) = 0 ↔ a.val.take k = b.val.take k :=
    torMemcmp_eq_zero (by simp [a.property, b.property])
  have hnone : k = 0 → torMemcmp (a.val.take k) (b.val.take k) = 0 := by
    intro hzero
    rw [hbytes, hzero, List.take_zero, List.take_zero]
  have hparts : (a.val.take k = b.val.take k ∧
      (a.val.getD k 0).toNat >>> (8 - r) = (b.val.getD k 0).toNat >>> (8 - r)) ↔
      ofBigEndian a.val / 2 ^ (128 - min mbits 128) =
        ofBigEndian b.val / 2 ^ (128 - min mbits 128) := by
    rw [hmbits]
    by_cases hfull : k = 16
    · have hwhole : a.val.take k = a.val ∧ b.val.take k = b.val := by
        simp [hfull, List.take_of_length_le, a.property, b.property]
      have hpast : a.val.getD k 0 = 0 ∧ b.val.getD k 0 = 0 := by
        simp [hfull, List.getD_eq_getElem?_getD, a.property, b.property]
      rw [hwhole.1, hwhole.2, hpast.1, hpast.2, show 128 - (8 * k + r) = 0 by omega, Nat.pow_zero,
        Nat.div_one, Nat.div_one]
      constructor
      · intro h
        rw [h.1]
      · intro h
        exact ⟨ofBigEndian_inj (a.property.trans b.property.symm) h, rfl⟩
    · exact (ofBigEndian_div_eq_iff a.property b.property (by omega) (by omega)).symm
  rw [← hparts, ← hbytes]
  by_cases hc : torMemcmp (a.val.take k) (b.val.take k) = 0
  · rw [if_neg (by simp [hc])]
    simp only [hc, true_and]
    by_cases hzero : r = 0
    · simp [hzero, shiftRight_eight]
    · rw [if_pos hzero, tristate_eq_zero]
  · rw [if_pos ⟨mt hnone hc, hc⟩]
    simp [hc]

theorem torAddrCompareMasked_eq_zero :
    torAddrCompareMasked a b mbits = 0 ↔ a.network mbits = b.network mbits := by
  cases a with
  | unspec => cases b <;> simp [torAddrCompareMasked, TorAddr.network, tristate, TorAddr.family,
      Family.code]
  | inet a =>
    cases b with
    | inet b => simp [compareInet_eq_zero, TorAddr.network]
    | unspec => simp [torAddrCompareMasked, TorAddr.network, tristate, TorAddr.family, Family.code]
    | inet6 b => simp [torAddrCompareMasked, TorAddr.network, tristate, TorAddr.family, Family.code]
  | inet6 a =>
    cases b with
    | inet6 b => simp [compareInet6_eq_zero, TorAddr.network]
    | unspec => simp [torAddrCompareMasked, TorAddr.network, tristate, TorAddr.family, Family.code]
    | inet b => simp [torAddrCompareMasked, TorAddr.network, tristate, TorAddr.family, Family.code]

theorem family_eq_of_network (h : a.network mbits = b.network mbits') : a.family = b.family := by
  cases a <;> cases b <;> simp_all [TorAddr.network, TorAddr.family]

/-- A longer mask tells more. -/
theorem network_mono (hle : mbits ≤ mbits') (h : a.network mbits' = b.network mbits') :
    a.network mbits = b.network mbits := by
  have hshorter (m n w : ℕ) (heq : m / 2 ^ (w - min mbits' w) = n / 2 ^ (w - min mbits' w)) :
      m / 2 ^ (w - min mbits w) = n / 2 ^ (w - min mbits w) := by
    have hpow : (2 : ℕ) ^ (w - min mbits w) =
        2 ^ (w - min mbits' w) * 2 ^ (min mbits' w - min mbits w) := by
      rw [← Nat.pow_add]
      congr 1
      omega
    rw [hpow, ← Nat.div_div_eq_div_mul, ← Nat.div_div_eq_div_mul, heq]
  cases a with
  | unspec => cases b <;> simp_all [TorAddr.network]
  | inet a =>
    cases b with
    | inet b =>
      simp only [TorAddr.network, Prod.mk.injEq, true_and] at h ⊢
      exact hshorter _ _ _ h
    | unspec => simp [TorAddr.network] at h
    | inet6 b => simp [TorAddr.network] at h
  | inet6 a =>
    cases b with
    | inet6 b =>
      simp only [TorAddr.network, Prod.mk.injEq, true_and] at h ⊢
      exact hshorter _ _ _ h
    | unspec => simp [TorAddr.network] at h
    | inet b => simp [TorAddr.network] at h

theorem network_zero (h : a.family = b.family) : a.network 0 = b.network 0 := by
  cases a with
  | unspec => cases b <;> simp_all [TorAddr.network, TorAddr.family]
  | inet a =>
    cases b with
    | inet b => simp [TorAddr.network, Nat.div_eq_of_lt a.isLt, Nat.div_eq_of_lt b.isLt]
    | unspec => simp [TorAddr.family] at h
    | inet6 b => simp [TorAddr.family] at h
  | inet6 a =>
    cases b with
    | inet6 b =>
      simp only [TorAddr.network, Nat.zero_min, Nat.sub_zero,
        Nat.div_eq_of_lt (ofBigEndian_in6_lt a), Nat.div_eq_of_lt (ofBigEndian_in6_lt b)]
    | unspec => simp [TorAddr.family] at h
    | inet b => simp [TorAddr.family] at h

end Addresses

/-! Policies, and the result of looking up an address and a port, either of which may be
unknown (`policies.c`). -/

section Compare

/-- `addr_policy_action_t` -/
inductive PolicyType
  | accept
  | reject
  deriving DecidableEq

/-- What the lookups read of `addr_policy_t`. A port is a `uint16_t`. -/
structure AddrPolicy where
  policyType : PolicyType
  maskbits : ℕ
  addr : TorAddr
  prtMin : ℕ
  prtMax : ℕ
  prtMin_lt : prtMin < 2 ^ 16 := by decide
  prtMax_lt : prtMax < 2 ^ 16 := by decide
  deriving DecidableEq

def AddrPolicy.ofPorts (policyType : PolicyType) (maskbits : ℕ) (addr : TorAddr)
    (prtMin prtMax : UInt16) : AddrPolicy :=
  ⟨policyType, maskbits, addr, prtMin.toNat, prtMax.toNat, prtMin.toNat_lt, prtMax.toNat_lt⟩

inductive AddrPolicyResult
  | accepted
  | rejected
  | probablyAccepted
  | probablyRejected
  deriving DecidableEq

def PolicyType.result : PolicyType → AddrPolicyResult
  | .accept => .accepted
  | .reject => .rejected

def compareKnownTorAddrToAddrPolicy (addr : TorAddr) (port : ℕ) : List AddrPolicy → AddrPolicyResult
  | [] => .accepted
  | tmpe :: policy =>
    if torAddrCompareMasked addr tmpe.addr tmpe.maskbits = 0 then
      if port ≥ tmpe.prtMin ∧ port ≤ tmpe.prtMax then tmpe.policyType.result
      else compareKnownTorAddrToAddrPolicy addr port policy
    else compareKnownTorAddrToAddrPolicy addr port policy

/-- A match that is certain, behind those that are possible. -/
def definiteMatch (maybeAccept maybeReject : Bool) : PolicyType → AddrPolicyResult
  | .accept => if maybeReject then .probablyAccepted else .accepted
  | .reject => if maybeAccept then .probablyRejected else .rejected

/-- The end of the lookups with something unknown. -/
def defaultMatch (maybeReject : Bool) : AddrPolicyResult :=
  if maybeReject then .probablyAccepted else .accepted

/-- The loop of `compare_known_tor_addr_to_addr_policy_noport`. -/
def noportLoop (addr : TorAddr) (maybeAccept maybeReject : Bool) :
    List AddrPolicy → AddrPolicyResult
  | [] => defaultMatch maybeReject
  | tmpe :: policy =>
    if torAddrCompareMasked addr tmpe.addr tmpe.maskbits = 0 then
      if tmpe.prtMin ≤ 1 ∧ tmpe.prtMax ≥ 65535 then
        definiteMatch maybeAccept maybeReject tmpe.policyType
      else match tmpe.policyType with
        | .reject => noportLoop addr maybeAccept true policy
        | .accept => noportLoop addr true maybeReject policy
    else noportLoop addr maybeAccept maybeReject policy

def compareKnownTorAddrToAddrPolicyNoport (addr : TorAddr) (policy : List AddrPolicy) :
    AddrPolicyResult := noportLoop addr false false policy

/-- The loop of `compare_unknown_tor_addr_to_addr_policy`. -/
def unknownLoop (port : ℕ) (maybeAccept maybeReject : Bool) : List AddrPolicy → AddrPolicyResult
  | [] => defaultMatch maybeReject
  | tmpe :: policy =>
    if tmpe.prtMin ≤ port ∧ port ≤ tmpe.prtMax then
      if tmpe.maskbits = 0 then definiteMatch maybeAccept maybeReject tmpe.policyType
      else match tmpe.policyType with
        | .reject => unknownLoop port maybeAccept true policy
        | .accept => unknownLoop port true maybeReject policy
    else unknownLoop port maybeAccept maybeReject policy

def compareUnknownTorAddrToAddrPolicy (port : ℕ) (policy : List AddrPolicy) : AddrPolicyResult :=
  unknownLoop port false false policy

/-- `compare_tor_addr_to_addr_policy`; a NULL pointer is `none`. -/
def compareTorAddrToAddrPolicy (addr : Option TorAddr) (port : ℕ)
    (policy : Option (List AddrPolicy)) : AddrPolicyResult :=
  match policy with
  | none => .accepted
  | some policy =>
    match addr.filter fun addr => !addr.isNull with
    | none => if port = 0 then .rejected else compareUnknownTorAddrToAddrPolicy port policy
    | some addr =>
      if port = 0 then compareKnownTorAddrToAddrPolicyNoport addr policy
      else compareKnownTorAddrToAddrPolicy addr port policy

/-! ### The exact lookup -/

def AddrPolicy.CoversPort (e : AddrPolicy) (port : ℕ) : Prop := e.prtMin ≤ port ∧ port ≤ e.prtMax

def AddrPolicy.CoversAddr (e : AddrPolicy) (addr : TorAddr) : Prop :=
  addr.network e.maskbits = e.addr.network e.maskbits

/-- An entry covers an address with a port. -/
def AddrPolicy.Covers (e : AddrPolicy) (x : TorAddr × ℕ) : Prop :=
  e.CoversAddr x.1 ∧ e.CoversPort x.2

instance (e : AddrPolicy) (port : ℕ) : Decidable (e.CoversPort port) :=
  inferInstanceAs (Decidable (_ ∧ _))

instance (e : AddrPolicy) (addr : TorAddr) : Decidable (e.CoversAddr addr) :=
  inferInstanceAs (Decidable (_ = _))

instance (e : AddrPolicy) (x : TorAddr × ℕ) : Decidable (e.Covers x) :=
  inferInstanceAs (Decidable (_ ∧ _))

variable {e : AddrPolicy} {addr : TorAddr} {port : ℕ} {policy : List AddrPolicy}

theorem compareKnown_eq_decision (addr : TorAddr) (port : ℕ) (policy : List AddrPolicy) :
    compareKnownTorAddrToAddrPolicy addr port policy =
      DecisionList.decision AddrPolicy.Covers (fun e => e.policyType.result) .accepted (addr, port)
        policy := by
  induction policy with
  | nil => rfl
  | cons e policy ih =>
    simp only [compareKnownTorAddrToAddrPolicy, DecisionList.decision, AddrPolicy.Covers,
      AddrPolicy.CoversAddr, AddrPolicy.CoversPort, ge_iff_le, torAddrCompareMasked_eq_zero, ih]
    by_cases haddr : addr.network e.maskbits = e.addr.network e.maskbits
    · simp [haddr]
    · simp [haddr]

theorem PolicyType.result_injective : Function.Injective PolicyType.result := by
  intro s t h
  cases s <;> cases t <;> first | rfl | cases h

theorem AddrPolicy.Covers.family (h : e.Covers (addr, port)) : e.addr.family = addr.family :=
  (family_eq_of_network h.1).symm

end Compare

end TorDaemon.Policies
