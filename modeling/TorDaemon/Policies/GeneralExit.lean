import TorDaemon.Policies.Addresses

/-! Whether a policy allows exiting to a /8 of the IPv4 addresses
(`exit_policy_is_general_exit_helper` in `policies.c`). -/
namespace TorDaemon.Policies
open Library Library.DecisionList

/-- `tor_addr_is_internal` for an IPv4 address, not for listening -/
def torAddrIsInternal (iph4 : BitVec 32) : Bool :=
  iph4 &&& 0xff000000 = 0x0a000000 || iph4 &&& 0xff000000 = 0x00000000 ||
  iph4 &&& 0xff000000 = 0x7f000000 || iph4 &&& 0xffc00000 = 0x64400000 ||
  iph4 &&& 0xffff0000 = 0xa9fe0000 || iph4 &&& 0xfff00000 = 0xac100000 ||
  iph4 &&& 0xffff0000 = 0xc0a80000

/-- The network mask of an entry. -/
def netmask (maskbits : ℕ) : BitVec 32 :=
  if maskbits ≠ 0 then BitVec.allOnes 32 <<< (32 - maskbits) else 0

/-- The values of `i` in the loop over the subnets that an entry touches. -/
def touchedSubnets (maskbits : ℕ) (ip : BitVec 32) : List ℕ :=
  let mask := netmask maskbits
  let first := ((mask &&& ip) >>> 24).toNat
  let last := (~~~((mask &&& ip) ^^^ mask) >>> 24).toNat
  List.range' first (last + 1 - first)

/-- How the loop over the subnets ends. -/
inductive Scan
  | outOfBounds
  | generalExit
  | done (subnetStatus : List Bool)
  deriving DecidableEq

/-- The first address of a /8. -/
def subnetStart (i : ℕ) : BitVec 32 := BitVec.ofNat 32 i <<< 24

/-- The loop over the subnets that an entry touches. -/
def scanSubnets (dirAllowPrivateAddresses : Bool) (p : AddrPolicy) (subnetStatus : List Bool) :
    List ℕ → Scan
  | [] => .done subnetStatus
  | i :: subnets =>
    match subnetStatus[i]? with
    | none => .outOfBounds
    | some true => scanSubnets dirAllowPrivateAddresses p subnetStatus subnets
    | some false =>
      if torAddrIsInternal (subnetStart i) && !dirAllowPrivateAddresses then
        scanSubnets dirAllowPrivateAddresses p subnetStatus subnets
      else match p.policyType with
        | .accept =>
          if p.maskbits > 8 then scanSubnets dirAllowPrivateAddresses p subnetStatus subnets
          else .generalExit
        | .reject =>
          scanSubnets dirAllowPrivateAddresses p (subnetStatus.set i true) subnets

/-- The loop over the policy. An assertion that fails and an access out of bounds are `none`. -/
def generalExitLoop (dirAllowPrivateAddresses : Bool) (port : ℕ) (subnetStatus : List Bool) :
    List AddrPolicy → Option Bool
  | [] => some false
  | p :: policy =>
    match p.addr with
    | .inet ip =>
      if p.prtMin > port ∨ p.prtMax < port then
        generalExitLoop dirAllowPrivateAddresses port subnetStatus policy
      else if p.maskbits ≤ 32 then
        match scanSubnets dirAllowPrivateAddresses p subnetStatus
          (touchedSubnets p.maskbits ip) with
        | .outOfBounds => none
        | .generalExit => some true
        | .done subnetStatus => generalExitLoop dirAllowPrivateAddresses port subnetStatus policy
      else none
    | _ => generalExitLoop dirAllowPrivateAddresses port subnetStatus policy

def exitPolicyIsGeneralExitHelper (dirAllowPrivateAddresses : Bool) (policy : List AddrPolicy)
    (port : ℕ) : Option Bool :=
  generalExitLoop dirAllowPrivateAddresses port (List.replicate 256 false) policy

/-! ### The bounds of the loop -/

section Bounds
variable {maskbits : ℕ} {ip : BitVec 32}

section
variable (maskbits : ℕ)

theorem netmask_eq : netmask maskbits = BitVec.allOnes 32 <<< (32 - maskbits) := by
  unfold netmask
  split_ifs with hzero
  · rfl
  · rw [not_not.mp hzero, Nat.sub_zero]
    rfl

theorem allOnes_shiftLeft_and (k : ℕ) (ip : BitVec 32) :
    BitVec.allOnes 32 <<< k &&& ip = ip >>> k <<< k := by
  ext i hi
  simp only [BitVec.getElem_and, BitVec.getElem_shiftLeft, BitVec.getElem_ushiftRight,
    BitVec.getElem_allOnes]
  by_cases hlow : i < k
  · simp only [hlow, decide_true, Bool.not_true, Bool.false_and]
  · simp only [hlow, decide_false, Bool.not_false, Bool.true_and,
      Nat.add_sub_cancel' (Nat.not_lt.mp hlow), BitVec.getLsbD_eq_getElem hi]

theorem toNat_first (ip : BitVec 32) :
    (netmask maskbits &&& ip).toNat = ip.toNat / 2 ^ (32 - maskbits) * 2 ^ (32 - maskbits) := by
  have hle : ip.toNat / 2 ^ (32 - maskbits) * 2 ^ (32 - maskbits) ≤ ip.toNat :=
    Nat.div_mul_le_self _ _
  rw [netmask_eq, allOnes_shiftLeft_and, BitVec.toNat_shiftLeft, BitVec.toNat_ushiftRight,
    Nat.shiftLeft_eq, Nat.shiftRight_eq_div_pow, Nat.mod_eq_of_lt (Nat.lt_of_le_of_lt hle ip.isLt)]

theorem toNat_last (ip : BitVec 32) : (~~~((netmask maskbits &&& ip) ^^^ netmask maskbits)).toNat =
      ip.toNat / 2 ^ (32 - maskbits) * 2 ^ (32 - maskbits) + (2 ^ (32 - maskbits) - 1) := by
  have hbits : (netmask maskbits &&& ip) ^^^ netmask maskbits = netmask maskbits &&& ~~~ip := by
    ext i hi
    simp only [BitVec.getElem_not, BitVec.getElem_xor, BitVec.getElem_and]
    cases (netmask maskbits)[i] <;> cases ip[i] <;> rfl
  rw [hbits, BitVec.toNat_not, toNat_first, BitVec.toNat_not]
  have hk : 32 - maskbits ≤ 32 := Nat.sub_le _ _
  have hlt := ip.isLt
  generalize 32 - maskbits = k at hk ⊢
  generalize ip.toNat = x at hlt ⊢
  have hsplit : (2 : ℕ) ^ 32 = 2 ^ (32 - k) * 2 ^ k := by
    rw [← Nat.pow_add, Nat.sub_add_cancel hk]
  have hpos : 0 < 2 ^ k := Nat.two_pow_pos k
  have hq : x / 2 ^ k < 2 ^ (32 - k) := by
    rw [Nat.div_lt_iff_lt_mul hpos, ← hsplit]
    exact hlt
  have hcompl : (2 ^ 32 - 1 - x) / 2 ^ k = 2 ^ (32 - k) - 1 - x / 2 ^ k := by
    rw [Nat.sub_sub, hsplit, Nat.add_comm 1 x, Nat.mul_comm, Nat.mul_sub_div _ _ _ (by
      rw [Nat.mul_comm, ← hsplit]
      exact hlt)]
    omega
  rw [hcompl, hsplit]
  generalize 2 ^ (32 - k) = n at hq
  generalize x / 2 ^ k = q at hq
  generalize 2 ^ k = m at hpos
  obtain ⟨d, rfl⟩ := Nat.exists_eq_add_of_lt hq
  have hd : q + d + 1 - 1 - q = d := by omega
  rw [hd, Nat.add_mul, Nat.add_mul, Nat.one_mul]
  omega

end

theorem div_eq_iff_between (x a k : ℕ) : a / 2 ^ k = x / 2 ^ k ↔
    x / 2 ^ k * 2 ^ k ≤ a ∧ a ≤ x / 2 ^ k * 2 ^ k + (2 ^ k - 1) := by
  have hpos : 0 < 2 ^ k := Nat.two_pow_pos k
  rw [Nat.div_eq_iff hpos]
  constructor
  · rintro ⟨hlow, hhigh⟩
    exact ⟨hlow, by omega⟩
  · rintro ⟨hlow, hhigh⟩
    exact ⟨hlow, by omega⟩

theorem mem_touchedSubnets {i : ℕ} : i ∈ touchedSubnets maskbits ip ↔
    ip.toNat / 2 ^ (32 - maskbits) * 2 ^ (32 - maskbits) / 2 ^ 24 ≤ i ∧
      i ≤ (ip.toNat / 2 ^ (32 - maskbits) * 2 ^ (32 - maskbits) +
        (2 ^ (32 - maskbits) - 1)) / 2 ^ 24 := by
  simp only [touchedSubnets, BitVec.toNat_ushiftRight, toNat_first, toNat_last,
    Nat.shiftRight_eq_div_pow, List.mem_range'_1]
  generalize ip.toNat / 2 ^ (32 - maskbits) * 2 ^ (32 - maskbits) = first
  omega

theorem mem_touchedSubnets_iff {i : ℕ} : i ∈ touchedSubnets maskbits ip ↔
    ∃ a : BitVec 32, a.toNat / 2 ^ (32 - maskbits) = ip.toNat / 2 ^ (32 - maskbits) ∧
      (a >>> 24).toNat = i := by
  have hlast := (~~~((netmask maskbits &&& ip) ^^^ netmask maskbits)).isLt
  rw [toNat_last] at hlast
  rw [mem_touchedSubnets]
  simp only [div_eq_iff_between, BitVec.toNat_ushiftRight, Nat.shiftRight_eq_div_pow]
  generalize ip.toNat / 2 ^ (32 - maskbits) * 2 ^ (32 - maskbits) = first at hlast ⊢
  generalize 2 ^ (32 - maskbits) - 1 = size at hlast ⊢
  constructor
  · rintro ⟨hlow, hhigh⟩
    have hmax : max first (i * 2 ^ 24) < 2 ^ 32 := by omega
    refine ⟨BitVec.ofNat 32 (max first (i * 2 ^ 24)), ?_, ?_⟩
    · rw [BitVec.toNat_ofNat, Nat.mod_eq_of_lt hmax]
      omega
    · rw [BitVec.toNat_ofNat, Nat.mod_eq_of_lt hmax]
      omega
  · rintro ⟨a, ⟨hlow, hhigh⟩, rfl⟩
    exact ⟨Nat.div_le_div_right hlow, Nat.div_le_div_right hhigh⟩

/-- The loop stays within `subnet_status`. -/
theorem lt_of_mem_touchedSubnets {i : ℕ} (h : i ∈ touchedSubnets maskbits ip) : i < 256 := by
  obtain ⟨a, -, rfl⟩ := mem_touchedSubnets_iff.mp h
  rw [BitVec.toNat_ushiftRight, Nat.shiftRight_eq_div_pow]
  omega

end Bounds

/-! ### What is recorded of the subnets -/

section Scanning
variable {dirAllow : Bool} {p : AddrPolicy} {subnetStatus subnetStatus' : List Bool}
  {subnets : List ℕ} {port : ℕ} {policy pre : List AddrPolicy} {a : BitVec 32} {ip : BitVec 32}

/-- A /8 that the loop passes over. -/
def isPassedOver (dirAllowPrivateAddresses : Bool) (i : ℕ) : Bool :=
  torAddrIsInternal (subnetStart i) && !dirAllowPrivateAddresses

theorem scanSubnets_inBounds (hbounds : ∀ i ∈ subnets, i < subnetStatus.length) :
    scanSubnets dirAllow p subnetStatus subnets ≠ .outOfBounds := by
  induction subnets generalizing subnetStatus with
  | nil => simp [scanSubnets]
  | cons i subnets ih =>
    have hi := hbounds i List.mem_cons_self
    have hrest : ∀ i ∈ subnets, i < subnetStatus.length :=
      fun j hj => hbounds j (List.mem_cons_of_mem _ hj)
    simp only [scanSubnets, List.getElem?_eq_getElem hi]
    split
    · exact absurd ‹_› (by simp)
    · exact ih hrest
    · split
      · exact ih hrest
      · split
        · split
          · exact ih hrest
          · simp
        · apply ih
          rwa [List.length_set]

/-- The loop ends early at a /8 that the entry accepts and that nothing is recorded of. -/
theorem scanSubnets_generalExit (h : scanSubnets dirAllow p subnetStatus subnets = .generalExit) :
    p.policyType = .accept ∧ p.maskbits ≤ 8 ∧
      ∃ i ∈ subnets, subnetStatus[i]? = some false ∧ isPassedOver dirAllow i = false := by
  induction subnets generalizing subnetStatus with
  | nil => simp [scanSubnets] at h
  | cons i subnets ih =>
    have hlater {status : List Bool} (hscan : scanSubnets dirAllow p status subnets = .generalExit)
        (hsame : p.policyType = .accept → status = subnetStatus) :
        p.policyType = .accept ∧ p.maskbits ≤ 8 ∧
          ∃ j ∈ i :: subnets, subnetStatus[j]? = some false ∧ isPassedOver dirAllow j = false := by
      obtain ⟨haccept, hmask, j, hj, hstatus, hpass⟩ := ih hscan
      exact ⟨haccept, hmask, j, List.mem_cons_of_mem _ hj, hsame haccept ▸ hstatus, hpass⟩
    simp only [scanSubnets] at h
    split at h
    · cases h
    · exact hlater h fun _ => rfl
    · next hstatus =>
      split at h
      · exact hlater h fun _ => rfl
      · next hpass =>
        split at h
        · next htype =>
          split at h
          · exact hlater h fun _ => rfl
          · next hmask =>
            exact ⟨htype, Nat.not_lt.mp hmask, i, List.mem_cons_self, hstatus,
              Bool.eq_false_iff.mpr hpass⟩
        · next htype =>
          refine hlater h fun haccept => ?_
          rw [htype] at haccept
          cases haccept

theorem set_true_ne_false (status : List Bool) (i : ℕ) : (status.set i true)[i]? ≠ some false := by
  rw [List.getElem?_set_self']
  cases status[i]? <;> simp

/-- The loop records a /8 for good, and each that an entry rejects a part of. -/
theorem scanSubnets_done
    (h : scanSubnets dirAllow p subnetStatus subnets = .done subnetStatus') :
    subnetStatus'.length = subnetStatus.length ∧
      (∀ i : ℕ, subnetStatus'[i]? = some false → subnetStatus[i]? = some false) ∧
      (p.policyType = .reject → ∀ i ∈ subnets, isPassedOver dirAllow i = false →
        subnetStatus'[i]? ≠ some false) := by
  induction subnets generalizing subnetStatus with
  | nil =>
    simp only [scanSubnets, Scan.done.injEq] at h
    subst h
    exact ⟨rfl, fun _ hi => hi, by simp⟩
  | cons i subnets ih =>
    have hlater (hscan : scanSubnets dirAllow p subnetStatus subnets = .done subnetStatus')
        (hhead : p.policyType = .reject → isPassedOver dirAllow i = false →
          subnetStatus[i]? ≠ some false) :
        subnetStatus'.length = subnetStatus.length ∧
          (∀ j : ℕ, subnetStatus'[j]? = some false → subnetStatus[j]? = some false) ∧
          (p.policyType = .reject → ∀ j ∈ i :: subnets, isPassedOver dirAllow j = false →
            subnetStatus'[j]? ≠ some false) := by
      obtain ⟨hlength, hkept, hmarked⟩ := ih hscan
      refine ⟨hlength, hkept, fun hreject j hj hpass hfalse => ?_⟩
      cases List.mem_cons.mp hj with
      | inl heq =>
        subst heq
        exact hhead hreject hpass (hkept j hfalse)
      | inr hmem => exact hmarked hreject j hmem hpass hfalse
    simp only [scanSubnets] at h
    split at h
    · cases h
    · next hstatus =>
      refine hlater h fun _ _ hfalse => ?_
      rw [hstatus] at hfalse
      cases hfalse
    · split at h
      · next hpass =>
        refine hlater h fun _ hnot => ?_
        rw [isPassedOver, hpass] at hnot
        cases hnot
      · split at h
        · next htype =>
          have hnot : p.policyType ≠ .reject := by
            rw [htype]
            decide
          split at h
          · exact hlater h fun hreject => absurd hreject hnot
          · cases h
        · obtain ⟨hlength, hkept, hmarked⟩ := ih h
          rw [List.length_set] at hlength
          refine ⟨hlength, fun j hfalse => ?_, fun hreject j hj hnot hfalse => ?_⟩
          · have hset := hkept j hfalse
            by_cases hij : i = j
            · subst hij
              exact absurd hset (set_true_ne_false _ _)
            · rwa [List.getElem?_set_ne hij] at hset
          · cases List.mem_cons.mp hj with
            | inl heq =>
              subst heq
              exact set_true_ne_false _ _ (hkept j hfalse)
            | inr hmem => exact hmarked hreject j hmem hnot hfalse

/-- A /8 of which nothing is recorded is not passed over, or no entry so far rejects a part of
it. -/
structure Recorded (dirAllow : Bool) (port : ℕ) (pre : List AddrPolicy)
    (subnetStatus : List Bool) : Prop where
  length : subnetStatus.length = 256
  clear : ∀ a : BitVec 32, subnetStatus[(a >>> 24).toNat]? = some false →
    isPassedOver dirAllow (a >>> 24).toNat = false →
    ∀ e ∈ pre, e.policyType = .reject → ¬ e.Covers (.inet a, port)

theorem Recorded.skip (h : Recorded dirAllow port pre subnetStatus)
    (hp : ∀ a : BitVec 32, ¬ p.Covers (.inet a, port)) :
    Recorded dirAllow port (pre ++ [p]) subnetStatus := by
  refine ⟨h.length, fun a hfalse hpass e he hreject => ?_⟩
  cases List.mem_append.mp he with
  | inl hmem => exact h.clear a hfalse hpass e hmem hreject
  | inr hlast => exact List.mem_singleton.mp hlast ▸ hp a

theorem covers_inet (haddr : p.addr = .inet ip) (hmask : p.maskbits ≤ 32) : p.CoversAddr (.inet a) ↔
      a.toNat / 2 ^ (32 - p.maskbits) = ip.toNat / 2 ^ (32 - p.maskbits) := by
  simp only [AddrPolicy.CoversAddr, haddr, TorAddr.network, Prod.mk.injEq, true_and,
    Nat.min_eq_left hmask]

theorem Recorded.scan (h : Recorded dirAllow port pre subnetStatus)
    (haddr : p.addr = .inet ip) (hmask : p.maskbits ≤ 32)
    (hscan : scanSubnets dirAllow p subnetStatus (touchedSubnets p.maskbits ip) =
      .done subnetStatus') : Recorded dirAllow port (pre ++ [p]) subnetStatus' := by
  obtain ⟨hlength, hkept, hmarked⟩ := scanSubnets_done hscan
  refine ⟨hlength.trans h.length, fun a hfalse hpass e he hreject => ?_⟩
  cases List.mem_append.mp he with
  | inl hmem => exact h.clear a (hkept _ hfalse) hpass e hmem hreject
  | inr hlast =>
    rw [List.mem_singleton.mp hlast] at hreject ⊢
    intro hcovers
    have htouched : (a >>> 24).toNat ∈ touchedSubnets p.maskbits ip :=
      mem_touchedSubnets_iff.mpr ⟨a, (covers_inet haddr hmask).mp hcovers.1, rfl⟩
    exact hmarked hreject _ htouched hpass hfalse

theorem covers_of_touched (haddr : p.addr = .inet ip) (hmask : p.maskbits ≤ 8)
    (htouched : (a >>> 24).toNat ∈ touchedSubnets p.maskbits ip) : p.CoversAddr (.inet a) := by
  obtain ⟨b, hb, hsame⟩ := mem_touchedSubnets_iff.mp htouched
  simp only [BitVec.toNat_ushiftRight, Nat.shiftRight_eq_div_pow] at hsame
  have hpow : (2 : ℕ) ^ (32 - p.maskbits) = 2 ^ 24 * 2 ^ (8 - p.maskbits) := by
    rw [← Nat.pow_add]
    congr 1
    omega
  rw [covers_inet haddr (by omega), ← hb, hpow, ← Nat.div_div_eq_div_mul,
    ← Nat.div_div_eq_div_mul, hsame]

/-- All addresses of a /8 are accepted for the port. -/
def AcceptsSubnet (policy : List AddrPolicy) (port i : ℕ) : Prop :=
  ∀ a : BitVec 32, (a >>> 24).toNat = i →
    compareKnownTorAddrToAddrPolicy (.inet a) port policy = .accepted

theorem generalExitLoop_sound (h : Recorded dirAllow port pre subnetStatus)
    (hexit : generalExitLoop dirAllow port subnetStatus policy = some true) :
    ∃ i < 256, isPassedOver dirAllow i = false ∧ AcceptsSubnet (pre ++ policy) port i := by
  induction policy generalizing pre subnetStatus with
  | nil => simp [generalExitLoop] at hexit
  | cons p policy ih =>
    rw [List.append_cons]
    simp only [generalExitLoop] at hexit
    split at hexit
    · next ip haddr =>
      split_ifs at hexit with hport hmask
      · apply ih _ hexit
        apply h.skip
        intro a hcovers
        have hports := hcovers.2
        simp only [AddrPolicy.CoversPort] at hports
        omega
      · split at hexit
        · cases hexit
        · next hscan =>
          obtain ⟨haccept, hwide, i, hi, hfalse, hpass⟩ := scanSubnets_generalExit hscan
          refine ⟨i, lt_of_mem_touchedSubnets hi, hpass, fun a ha => ?_⟩
          subst ha
          have hcovers : p.Covers (.inet a, port) := by
            refine ⟨covers_of_touched haddr hwide hi, ?_⟩
            change p.prtMin ≤ port ∧ port ≤ p.prtMax
            omega
          have hex : ∃ e ∈ pre ++ [p], e.Covers (.inet a, port) := ⟨p, by simp, hcovers⟩
          rw [compareKnown_eq_decision, decision_append_of_covered hex]
          apply decision_of_forall hex
          intro e he hcov
          cases List.mem_append.mp he with
          | inl hmem =>
            cases htype : e.policyType with
            | accept => rfl
            | reject => exact absurd hcov (h.clear a hfalse hpass e hmem htype)
          | inr hlast => rw [List.mem_singleton.mp hlast, haccept, PolicyType.result]
        · next hscan => exact ih (h.scan haddr hmask hscan) hexit
    · next hfamily =>
      apply ih _ hexit
      apply h.skip
      intro a hcovers
      have hsame := hcovers.family
      cases haddr : p.addr with
      | inet ip => exact hfamily ip haddr
      | unspec => rw [haddr] at hsame; cases hsame
      | inet6 ip => rw [haddr] at hsame; cases hsame

theorem generalExitLoop_defined (hlength : subnetStatus.length = 256)
    (hmask : ∀ e ∈ policy, e.addr.family = .inet → e.maskbits ≤ 32) :
    generalExitLoop dirAllow port subnetStatus policy ≠ none := by
  induction policy generalizing subnetStatus with
  | nil => simp [generalExitLoop]
  | cons p policy ih =>
    have hrest : ∀ e ∈ policy, e.addr.family = .inet → e.maskbits ≤ 32 :=
      fun e he => hmask e (List.mem_cons_of_mem _ he)
    simp only [generalExitLoop]
    split
    · next ip haddr =>
      have hp := hmask p List.mem_cons_self (by rw [haddr]; rfl)
      split_ifs with hport
      · exact ih hlength hrest
      · split
        · next hscan =>
          refine absurd hscan (scanSubnets_inBounds fun i hi => ?_)
          rw [hlength]
          exact lt_of_mem_touchedSubnets hi
        · simp
        · next hscan => exact ih ((scanSubnets_done hscan).1.trans hlength) hrest
    · exact ih hlength hrest

/-- Where the helper finds a /8 all its addresses are accepted for the port, and it does not
start in an internal network unless private addresses are allowed. The loop of an IPv4 entry
goes through the /8s with an address of its network and never leaves the 256 slots. -/
theorem generalExitHelper_sound (dirAllowPrivateAddresses : Bool) (policy : List AddrPolicy)
    (port : ℕ) : (exitPolicyIsGeneralExitHelper dirAllowPrivateAddresses policy port = some true →
      ∃ i < 256, (torAddrIsInternal (subnetStart i) = true → dirAllowPrivateAddresses = true) ∧
        AcceptsSubnet policy port i) ∧
    (∀ e ∈ policy, ∀ ip, e.addr = .inet ip → e.maskbits ≤ 32 → ∀ i : ℕ,
      i ∈ touchedSubnets e.maskbits ip ↔
        i < 256 ∧ ∃ a : BitVec 32, e.CoversAddr (.inet a) ∧ (a >>> 24).toNat = i) ∧
    ((∀ e ∈ policy, e.addr.family = .inet → e.maskbits ≤ 32) →
      exitPolicyIsGeneralExitHelper dirAllowPrivateAddresses policy port ≠ none) := by
  refine ⟨fun hexit => ?_, fun e _ ip haddr hmask i => ?_, fun hmask => ?_⟩
  · have hstart : Recorded dirAllowPrivateAddresses port [] (List.replicate 256 false) :=
      ⟨List.length_replicate, fun _ _ _ _ he => absurd he List.not_mem_nil⟩
    obtain ⟨i, hi, hpass, haccepts⟩ := generalExitLoop_sound hstart hexit
    refine ⟨i, hi, fun hinternal => ?_, haccepts⟩
    simpa [isPassedOver, hinternal] using hpass
  · simp only [covers_inet haddr hmask, ← mem_touchedSubnets_iff]
    exact ⟨fun h => ⟨lt_of_mem_touchedSubnets h, h⟩, And.right⟩
  · exact generalExitLoop_defined List.length_replicate hmask

/-- "accept 10.0.0.0/8:80, reject *4:80" -/
def onlyPrivate : List AddrPolicy :=
  [.ofPorts .accept 8 (.inet 0x0a000000) 80 80,
   .ofPorts .reject 0 (.inet 0) 80 80]

/-- With `DirAllowPrivateAddresses` a policy that accepts only 10.0.0.0/8 is a general exit. -/
theorem onlyPrivate_isGeneralExit : exitPolicyIsGeneralExitHelper true onlyPrivate 80 = some true ∧
      ¬ ∃ i < 256, torAddrIsInternal (subnetStart i) = false ∧ AcceptsSubnet onlyPrivate 80 i := by
  constructor
  · decide +kernel
  · rintro ⟨i, hi, hinternal, haccepts⟩
    have hall : ∀ i < 256, torAddrIsInternal (subnetStart i) = true ∨
        (subnetStart i >>> 24).toNat = i ∧
          compareKnownTorAddrToAddrPolicy (.inet (subnetStart i)) 80 onlyPrivate ≠ .accepted := by
      decide +kernel
    cases hall i hi with
    | inl h => exact absurd h (by simp [hinternal])
    | inr h => exact h.2 (haccepts (subnetStart i) h.1)

end Scanning

end TorDaemon.Policies
