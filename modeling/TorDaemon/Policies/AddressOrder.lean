import TorDaemon.Policies.Addresses

/-! Whether the comparison of addresses is an order (`address.c`). -/
namespace TorDaemon.Policies
open Library.NetworkOrder
variable {a b c : TorAddr} {p y : In6Addr} {x : BitVec 32}

section Model

inductive AddrComparison
  | exact
  | semantic
  deriving DecidableEq

/-- A word of `tor_addr_to_in6_addr32`, in host order. -/
def in6Addr32 (a : In6Addr) (i : ℕ) : ℕ := ofBigEndian ((a.val.drop (4 * i)).take 4)

def torAddrIsV4 : TorAddr → Bool
  | .unspec => false
  | .inet _ => true
  | .inet6 a => in6Addr32 a 0 = 0 ∧ in6Addr32 a 1 = 0 ∧ in6Addr32 a 2 = 0xffff

/-- `tor_addr_to_ipv4h` or, for an IPv6 address, `tor_addr_to_mapped_ipv4h` -/
def torAddrToV4h : TorAddr → ℕ
  | .unspec => 0
  | .inet addr => addr.toNat
  | .inet6 a => in6Addr32 a 3

/-- The family that an address is compared in. -/
def vFamily (a : TorAddr) : Family :=
  if a.family = .inet6 ∧ torAddrIsV4 a then .inet else a.family

/-- `tor_addr_compare_masked`, in either mode -/
def torAddrCompareMaskedAs (addr1 addr2 : TorAddr) (mbits : ℕ) (how : AddrComparison) : ℤ :=
  if addr1.family = addr2.family ∨ how = .exact then torAddrCompareMasked addr1 addr2 mbits
  else if mbits = 0 then 0
  else if vFamily addr1 = vFamily addr2 then
    if addr1.family = .inet6 ∧ mbits ≤ 96 then 0
    else
      let mbits := if addr1.family = .inet6 then mbits - 96 else mbits
      let mbits := min mbits 32
      tristate (torAddrToV4h addr1 >>> (32 - mbits)) (torAddrToV4h addr2 >>> (32 - mbits))
  else tristate addr1.family.code addr2.family.code

def torAddrCompare (addr1 addr2 : TorAddr) (how : AddrComparison) : ℤ :=
  torAddrCompareMaskedAs addr1 addr2 128 how

end Model

section Signs

/-- The result of a comparison has the sign that the numbers call for. -/
structure HasSign (r : ℤ) (m n : ℕ) : Prop where
  neg : r < 0 ↔ m < n
  zero : r = 0 ↔ m = n

theorem HasSign.nonpos {r : ℤ} {m n : ℕ} (h : HasSign r m n) : r ≤ 0 ↔ m ≤ n := by
  have hneg := h.neg
  have hzero := h.zero
  omega

theorem HasSign.pos {r : ℤ} {m n : ℕ} (h : HasSign r m n) : 0 < r ↔ n < m := by
  have hneg := h.neg
  have hzero := h.zero
  omega

theorem tristate_hasSign (m n : ℕ) : HasSign (tristate m n) m n := by
  unfold tristate
  split_ifs with hlt heq
  · exact ⟨iff_of_true (by decide) hlt, iff_of_false (by decide) (Nat.ne_of_lt hlt)⟩
  · exact ⟨iff_of_false (by decide) hlt, iff_of_true rfl heq⟩
  · exact ⟨iff_of_false (by decide) hlt, iff_of_false (by decide) heq⟩

/-- The first byte that differs decides about the numbers too. -/
theorem torMemcmp_hasSign {s t : Bytes} (hlen : s.length = t.length) :
    HasSign (torMemcmp s t) (ofBigEndian s) (ofBigEndian t) := by
  induction s generalizing t with
  | nil =>
    obtain rfl := List.length_eq_zero_iff.mp hlen.symm
    constructor <;> simp [torMemcmp]
  | cons u s ih =>
    cases t with
    | nil => simp at hlen
    | cons v t =>
      have hlen : s.length = t.length := Nat.succ_inj.mp hlen
      have hs : ofBigEndian (u :: s) = u.toNat * 256 ^ s.length + ofBigEndian s := by
        simpa [ofBigEndian] using ofBigEndian_append [u] s
      have ht : ofBigEndian (v :: t) = v.toNat * 256 ^ s.length + ofBigEndian t := by
        simpa [ofBigEndian, hlen] using ofBigEndian_append [v] t
      have hlts := ofBigEndian_lt s
      have hltt := ofBigEndian_lt t
      rw [← hlen] at hltt
      have hrest := ih hlen
      rw [torMemcmp, hs, ht]
      by_cases huv : u = v
      · rw [if_pos huv, huv]
        exact ⟨hrest.neg.trans (Nat.add_lt_add_iff_left).symm,
          hrest.zero.trans (Nat.add_left_cancel_iff).symm⟩
      · rw [if_neg huv]
        have hne : u.toNat ≠ v.toNat := fun heq => huv (UInt8.toNat_inj.mp heq)
        have hfirst := tristate_hasSign u.toNat v.toNat
        rcases Nat.lt_or_gt_of_ne hne with hlt | hgt
        · have hblock := Nat.mul_le_mul_right (256 ^ s.length) (Nat.succ_le_of_lt hlt)
          rw [Nat.succ_mul] at hblock
          exact ⟨hfirst.neg.trans (by omega), hfirst.zero.trans (by omega)⟩
        · have hblock := Nat.mul_le_mul_right (256 ^ s.length) (Nat.succ_le_of_lt hgt)
          rw [Nat.succ_mul] at hblock
          exact ⟨hfirst.neg.trans (by omega), hfirst.zero.trans (by omega)⟩

end Signs

section Levels

/-- The number that an address of any family is. -/
def TorAddr.value : TorAddr → ℕ
  | .unspec => 0
  | .inet addr => addr.toNat
  | .inet6 a => ofBigEndian a.val

/-- The first of the mapped addresses, `::ffff:0.0.0.0`, as a number. -/
def mappedBase : ℕ := 0xffff * 2 ^ 32

/-- The families one after the other. -/
def TorAddr.rank (a : TorAddr) : ℕ := a.family.code * 2 ^ 128 + a.value

/-- What decides how `a` compares with `b`. -/
def TorAddr.level (how : AddrComparison) (a b : TorAddr) : ℕ :=
  if how = .semantic ∧ a.family ≠ b.family ∧ vFamily a = vFamily b then torAddrToV4h a
  else a.rank

theorem in6_words (a : In6Addr) : ofBigEndian a.val = in6Addr32 a 0 * 2 ^ 96 +
    in6Addr32 a 1 * 2 ^ 64 + in6Addr32 a 2 * 2 ^ 32 + in6Addr32 a 3 := by
  have hsplit (l : Bytes) : ofBigEndian l =
      ofBigEndian (l.take 4) * 256 ^ (l.drop 4).length + ofBigEndian (l.drop 4) := by
    rw [← ofBigEndian_append, List.take_append_drop]
  have hlast : (a.val.drop 12).take 4 = a.val.drop 12 :=
    List.take_of_length_le (by simp [a.property])
  have h0 := hsplit a.val
  have h1 := hsplit (a.val.drop 4)
  have h2 := hsplit (a.val.drop 8)
  simp only [List.drop_drop, List.length_drop, a.property, Nat.reduceAdd, Nat.reduceSub] at h0 h1 h2
  simp only [in6Addr32, Nat.reduceMul, List.drop_zero, hlast]
  rw [h0, h1, h2]
  ring

theorem in6Addr32_lt (a : In6Addr) (i : ℕ) : in6Addr32 a i < 2 ^ 32 := by
  have hlt := ofBigEndian_lt ((a.val.drop (4 * i)).take 4)
  have hlen : ((a.val.drop (4 * i)).take 4).length ≤ 4 := List.length_take_le ..
  exact hlt.trans_le (Nat.pow_le_pow_right (by omega) hlen)

/-- The mapped addresses follow one another. -/
theorem isV4_iff : torAddrIsV4 (.inet6 p) ↔
    mappedBase ≤ ofBigEndian p.val ∧ ofBigEndian p.val < mappedBase + 2 ^ 32 := by
  have h3 := in6Addr32_lt p 3
  rw [in6_words p, mappedBase]
  simp only [torAddrIsV4, decide_eq_true_eq]
  omega

theorem value_of_isV4 (h : torAddrIsV4 (.inet6 p)) :
    ofBigEndian p.val = mappedBase + torAddrToV4h (.inet6 p) := by
  have hwords := in6_words p
  simp only [torAddrIsV4, decide_eq_true_eq] at h
  rw [hwords, mappedBase, torAddrToV4h]
  omega

theorem torAddrToV4h_lt (a : TorAddr) : torAddrToV4h a < 2 ^ 32 := by
  cases a with
  | unspec => decide
  | inet x => exact x.isLt
  | inet6 p => exact in6Addr32_lt p 3

theorem value_lt (a : TorAddr) : a.value < 2 ^ 128 := by
  cases a with
  | unspec => decide
  | inet x => exact x.isLt.trans (by decide)
  | inet6 p => exact ofBigEndian_in6_lt p

theorem torAddrCompareMasked_hasSign (a b : TorAddr) :
    HasSign (torAddrCompareMasked a b 128) a.rank b.rank := by
  have ha := value_lt a
  have hb := value_lt b
  -- where the families differ, their numbers decide
  have hother (h : a.family.code < b.family.code ∨ b.family.code < a.family.code) :
      HasSign (tristate a.family.code b.family.code) a.rank b.rank := by
    have hcodes := tristate_hasSign a.family.code b.family.code
    have hranks : (a.rank < b.rank ↔ a.family.code < b.family.code) ∧ a.rank ≠ b.rank := by
      unfold TorAddr.rank
      omega
    exact ⟨hcodes.neg.trans hranks.1.symm, hcodes.zero.trans (iff_of_false (by omega) hranks.2)⟩
  have hinet : Family.unspec.code < Family.inet.code := by decide
  have hinet6 : Family.inet.code < Family.inet6.code := by decide
  cases a with
  | unspec =>
    cases b with
    | unspec => exact ⟨by simp [torAddrCompareMasked], by simp [torAddrCompareMasked]⟩
    | inet x' => exact hother (.inl hinet)
    | inet6 q => exact hother (.inl (hinet.trans hinet6))
  | inet x =>
    cases b with
    | unspec => exact hother (.inr hinet)
    | inet x' =>
      have hsign := tristate_hasSign x.toNat x'.toNat
      exact ⟨hsign.neg.trans (Nat.add_lt_add_iff_left).symm,
        hsign.zero.trans (Nat.add_left_cancel_iff).symm⟩
    | inet6 q => exact hother (.inl hinet6)
  | inet6 p =>
    cases b with
    | unspec => exact hother (.inr (hinet.trans hinet6))
    | inet x' => exact hother (.inr hinet6)
    | inet6 q =>
      have hsign := torMemcmp_hasSign (p.property.trans q.property.symm)
      have hcmp : torAddrCompareMasked (.inet6 p) (.inet6 q) 128 = torMemcmp p.val q.val := by
        have hp : p.val.take 16 = p.val := List.take_of_length_le p.property.le
        have hq : q.val.take 16 = q.val := List.take_of_length_le q.property.le
        simp [torAddrCompareMasked, hp, hq]
        intro h
        exact h.symm
      rw [hcmp]
      exact ⟨hsign.neg.trans (Nat.add_lt_add_iff_left).symm,
        hsign.zero.trans (Nat.add_left_cancel_iff).symm⟩

end Levels

section Order

theorem level_exact : a.level .exact b = a.rank := by simp [TorAddr.level]

theorem level_same (how : AddrComparison) (h : a.family = b.family) : a.level how b = a.rank := by
  simp [TorAddr.level, h]

theorem level_mapped (hne : a.family ≠ b.family) (h : vFamily a = vFamily b) :
    a.level .semantic b = torAddrToV4h a := if_pos ⟨rfl, hne, h⟩

theorem level_apart (how : AddrComparison) (h : vFamily a ≠ vFamily b) :
    a.level how b = a.rank := if_neg fun hboth => h hboth.2.2

theorem torAddrCompare_hasSign (how : AddrComparison) (a b : TorAddr) :
    HasSign (torAddrCompare a b how) (a.level how b) (b.level how a) := by
  have hexact := torAddrCompareMasked_hasSign a b
  unfold torAddrCompare torAddrCompareMaskedAs
  by_cases hsame : a.family = b.family
  · rwa [if_pos (.inl hsame), level_same how hsame, level_same how hsame.symm]
  · cases how with
    | exact => rwa [if_pos (.inr rfl), level_exact, level_exact]
    | semantic =>
      rw [if_neg (by simp [hsame]), if_neg (by decide)]
      by_cases hfamily : vFamily a = vFamily b
      · have hmask : ¬ (a.family = .inet6 ∧ 128 ≤ 96) := by omega
        have hbits : min (if a.family = .inet6 then 128 - 96 else 128) 32 = 32 := by
          split <;> rfl
        rw [if_pos hfamily, if_neg hmask, level_mapped hsame hfamily,
          level_mapped (Ne.symm hsame) hfamily.symm]
        dsimp only
        rw [hbits]
        exact tristate_hasSign (torAddrToV4h a) (torAddrToV4h b)
      · rw [if_neg hfamily, level_apart _ hfamily, level_apart _ (Ne.symm hfamily)]
        have hcmp : torAddrCompareMasked a b 128 = tristate a.family.code b.family.code := by
          cases a <;> cases b <;> first | rfl | exact absurd rfl hsame
        rwa [hcmp] at hexact

/-- The comparison orders the addresses of the set: turned around it has the other sign, and it
is transitive, as equality in it is. -/
structure OrdersAddrs (how : AddrComparison) (s : Set TorAddr) : Prop where
  swap : ∀ a ∈ s, ∀ b ∈ s, (torAddrCompare a b how < 0 ↔ 0 < torAddrCompare b a how) ∧
    (torAddrCompare a b how = 0 ↔ torAddrCompare b a how = 0)
  trans : ∀ a ∈ s, ∀ b ∈ s, ∀ c ∈ s, torAddrCompare a b how ≤ 0 → torAddrCompare b c how ≤ 0 →
    torAddrCompare a c how ≤ 0
  trans_eq : ∀ a ∈ s, ∀ b ∈ s, ∀ c ∈ s, torAddrCompare a b how = 0 → torAddrCompare b c how = 0 →
    torAddrCompare a c how = 0

/-- In the set an IPv6 address that is not mapped comes before a mapped one, and after the
family of an IPv4 address that is not less than the mapped one. -/
def Straddled (s : Set TorAddr) : Prop :=
  ∃ x y p, .inet x ∈ s ∧ .inet6 y ∈ s ∧ .inet6 p ∈ s ∧ torAddrIsV4 (.inet6 y) ∧
    ¬ torAddrIsV4 (.inet6 p) ∧ torMemcmp p.val y.val < 0 ∧ torAddrToV4h (.inet6 y) ≤ x.toNat

/-- The first is not after the second. -/
def SemanticLe (a b : TorAddr) : Prop := a.level .semantic b ≤ b.level .semantic a

theorem le_apart (hne : a.family.code ≠ b.family.code) (h : vFamily a ≠ vFamily b) :
    SemanticLe a b ↔ a.family.code < b.family.code := by
  have ha := value_lt a
  have hb := value_lt b
  rw [SemanticLe, level_apart _ h, level_apart _ (Ne.symm h), TorAddr.rank, TorAddr.rank]
  omega

theorem vFamily_inet6 (p : In6Addr) :
    vFamily (.inet6 p) = if torAddrIsV4 (.inet6 p) then .inet else .inet6 := by
  simp [vFamily, TorAddr.family]

theorem families_of_isV4 (x : BitVec 32) (h : torAddrIsV4 (.inet6 p)) :
    (TorAddr.inet x).family ≠ (TorAddr.inet6 p).family ∧
      vFamily (.inet x) = vFamily (.inet6 p) := by
  rw [vFamily_inet6, if_pos h]
  exact ⟨Family.noConfusion, rfl⟩

theorem le_unspec_iff : SemanticLe a .unspec ↔ a = .unspec := by
  cases a with
  | unspec => exact iff_of_true (Nat.le_refl _) rfl
  | inet x =>
    exact iff_of_false (mt (le_apart (by simp [TorAddr.family, Family.code])
      (by simp [vFamily, TorAddr.family])).mp (Nat.not_lt_zero _)) TorAddr.noConfusion
  | inet6 p =>
    refine iff_of_false (mt (le_apart (by simp [TorAddr.family, Family.code]) ?_).mp
      (Nat.not_lt_zero _)) TorAddr.noConfusion
    rw [vFamily_inet6]
    split <;> simp [vFamily, TorAddr.family]

theorem unspec_le (b : TorAddr) : SemanticLe .unspec b := by
  by_contra hnot
  exact hnot (by rw [le_unspec_iff.mp (Nat.le_of_not_le hnot)]; exact Nat.le_refl _)

theorem inet_le_inet {x x' : BitVec 32} : SemanticLe (.inet x) (.inet x') ↔ x.toNat ≤ x'.toNat := by
  exact Nat.add_le_add_iff_left

theorem inet6_le_inet6 : SemanticLe (.inet6 p) (.inet6 y) ↔
    ofBigEndian p.val ≤ ofBigEndian y.val := by
  exact Nat.add_le_add_iff_left

theorem inet_le_inet6 : SemanticLe (.inet x) (.inet6 p) ↔
    (torAddrIsV4 (.inet6 p) → x.toNat ≤ torAddrToV4h (.inet6 p)) := by
  by_cases hp : torAddrIsV4 (.inet6 p)
  · obtain ⟨hne, hfamily⟩ := families_of_isV4 x hp
    rw [SemanticLe, level_mapped hne hfamily, level_mapped hne.symm hfamily.symm]
    exact ⟨fun h _ => h, fun h => h hp⟩
  · have hfamily : vFamily (.inet x) ≠ vFamily (.inet6 p) := by rw [vFamily_inet6, if_neg hp]; nofun
    rw [le_apart (by simp [TorAddr.family, Family.code]) hfamily]
    exact iff_of_true (by simp [TorAddr.family, Family.code]) fun h => absurd h hp

theorem inet6_le_inet : SemanticLe (.inet6 p) (.inet x) ↔
    torAddrIsV4 (.inet6 p) ∧ torAddrToV4h (.inet6 p) ≤ x.toNat := by
  by_cases hp : torAddrIsV4 (.inet6 p)
  · obtain ⟨hne, hfamily⟩ := families_of_isV4 x hp
    rw [SemanticLe, level_mapped hne.symm hfamily.symm, level_mapped hne hfamily]
    exact ⟨fun h => ⟨hp, h⟩, And.right⟩
  · have hfamily : vFamily (.inet x) ≠ vFamily (.inet6 p) := by rw [vFamily_inet6, if_neg hp]; nofun
    rw [le_apart (by simp [TorAddr.family, Family.code]) (Ne.symm hfamily)]
    exact iff_of_false (by simp [TorAddr.family, Family.code]) fun h => absurd h.1 hp

/-- Only where an IPv6 address is in between, a mapped address and an IPv4 address are not in
one order. -/
theorem semanticLe_trans {s : Set TorAddr} (h : ¬ Straddled s) (ha : a ∈ s) (hb : b ∈ s)
    (hc : c ∈ s) (hab : SemanticLe a b) (hbc : SemanticLe b c) : SemanticLe a c := by
  have hapart {x : BitVec 32} {y p : In6Addr} (hx : .inet x ∈ s) (hy : .inet6 y ∈ s)
      (hp : .inet6 p ∈ s) (hmapped : torAddrIsV4 (.inet6 y)) (hplain : ¬ torAddrIsV4 (.inet6 p))
      (hlt : ofBigEndian p.val < ofBigEndian y.val) : x.toNat < torAddrToV4h (.inet6 y) := by
    by_contra hle
    refine h ⟨x, y, p, hx, hy, hp, hmapped, hplain, ?_, Nat.not_lt.mp hle⟩
    exact (torMemcmp_hasSign (p.property.trans y.property.symm)).neg.mpr hlt
  have hkind (q : In6Addr) : torAddrIsV4 (.inet6 q) ∧
      ofBigEndian q.val = mappedBase + torAddrToV4h (.inet6 q) ∨ ¬ torAddrIsV4 (.inet6 q) ∧
      (ofBigEndian q.val < mappedBase ∨ mappedBase + 2 ^ 32 ≤ ofBigEndian q.val) := by
    by_cases hq : torAddrIsV4 (.inet6 q)
    · exact .inl ⟨hq, value_of_isV4 hq⟩
    · have hrange := mt isV4_iff.mpr hq
      exact .inr ⟨hq, by omega⟩
  cases c with
  | unspec => rwa [le_unspec_iff.mp hbc] at hab
  | inet x =>
    cases b with
    | unspec =>
      rw [le_unspec_iff.mp hab]
      exact unspec_le _
    | inet x' =>
      cases a with
      | unspec => exact unspec_le _
      | inet w => exact inet_le_inet.mpr ((inet_le_inet.mp hab).trans (inet_le_inet.mp hbc))
      | inet6 p =>
        obtain ⟨hp, hle⟩ := inet6_le_inet.mp hab
        exact inet6_le_inet.mpr ⟨hp, hle.trans (inet_le_inet.mp hbc)⟩
    | inet6 y =>
      obtain ⟨hy, hle⟩ := inet6_le_inet.mp hbc
      cases a with
      | unspec => exact unspec_le _
      | inet w => exact inet_le_inet.mpr ((inet_le_inet6.mp hab hy).trans hle)
      | inet6 p =>
        have hpy := inet6_le_inet6.mp hab
        have hvalue := value_of_isV4 hy
        rcases hkind p with ⟨hp, hpv⟩ | ⟨hp, hpv⟩
        · exact inet6_le_inet.mpr ⟨hp, by omega⟩
        · have hsplit := hapart hc hb ha hy hp (by omega)
          omega
  | inet6 q =>
    cases b with
    | unspec =>
      rw [le_unspec_iff.mp hab]
      exact unspec_le _
    | inet x' =>
      cases a with
      | unspec => exact unspec_le _
      | inet w =>
        exact inet_le_inet6.mpr fun hq => (inet_le_inet.mp hab).trans (inet_le_inet6.mp hbc hq)
      | inet6 p =>
        obtain ⟨hp, hle⟩ := inet6_le_inet.mp hab
        have hpv := value_of_isV4 hp
        apply inet6_le_inet6.mpr
        rcases hkind q with ⟨hq, hqv⟩ | ⟨hq, hqv⟩
        · have hle' := inet_le_inet6.mp hbc hq
          omega
        · by_contra hnot
          have hsplit := hapart hb ha hc hp hq (by omega)
          omega
    | inet6 y =>
      have hyq := inet6_le_inet6.mp hbc
      cases a with
      | unspec => exact unspec_le _
      | inet w =>
        apply inet_le_inet6.mpr
        intro hq
        have hqv := value_of_isV4 hq
        have hlt := torAddrToV4h_lt (.inet6 q)
        rcases hkind y with ⟨hy, hyv⟩ | ⟨hy, hyv⟩
        · have hle := inet_le_inet6.mp hab hy
          omega
        · exact (hapart ha hc hb hq hy (by omega)).le
      | inet6 p => exact inet6_le_inet6.mpr ((inet6_le_inet6.mp hab).trans hyq)

/-- The comparison orders a set of addresses if and only if it is exact, or the set has no
address between a mapped one and an IPv4 address. -/
theorem ordersAddrs_iff (how : AddrComparison) (s : Set TorAddr) :
    OrdersAddrs how s ↔ how = .exact ∨ ¬ Straddled s := by
  have hsign := torAddrCompare_hasSign how
  have hle (a b : TorAddr) : torAddrCompare a b how ≤ 0 ↔ a.level how b ≤ b.level how a :=
    (hsign a b).nonpos
  have hswap (a b : TorAddr) : (torAddrCompare a b how < 0 ↔ 0 < torAddrCompare b a how) ∧
      (torAddrCompare a b how = 0 ↔ torAddrCompare b a how = 0) :=
    ⟨(hsign a b).neg.trans (hsign b a).pos.symm,
      (hsign a b).zero.trans (eq_comm.trans (hsign b a).zero.symm)⟩
  constructor
  · intro h
    refine or_iff_not_imp_left.mpr fun hhow => ?_
    obtain rfl : how = .semantic := by
      cases how
      · exact absurd rfl hhow
      · rfl
    rintro ⟨x, y, p, hx, hy, hp, hmapped, hplain, hlt, hle'⟩
    have hyx := (hle (.inet6 y) (.inet x)).mpr (inet6_le_inet.mpr ⟨hmapped, hle'⟩)
    have hxp := (hle (.inet x) (.inet6 p)).mpr (inet_le_inet6.mpr fun hv4 => absurd hv4 hplain)
    have hyp := inet6_le_inet6.mp ((hle _ _).mp (h.trans _ hy _ hx _ hp hyx hxp))
    have hpy := (torMemcmp_hasSign (p.property.trans y.property.symm)).neg.mp hlt
    omega
  · intro h
    have htrans : ∀ a ∈ s, ∀ b ∈ s, ∀ c ∈ s, torAddrCompare a b how ≤ 0 →
        torAddrCompare b c how ≤ 0 → torAddrCompare a c how ≤ 0 := by
      intro a ha b hb c hc hab hbc
      rw [hle] at hab hbc ⊢
      cases how with
      | exact =>
        rw [level_exact, level_exact] at hab hbc ⊢
        exact hab.trans hbc
      | semantic => exact semanticLe_trans (h.resolve_left nofun) ha hb hc hab hbc
    refine ⟨fun a _ b _ => hswap a b, htrans, ?_⟩
    intro a ha b hb c hc hab hbc
    have hac := htrans a ha b hb c hc hab.le hbc.le
    have hca := htrans c hc b hb a ha ((hswap b c).2.mp hbc).le ((hswap a b).2.mp hab).le
    have hback := hswap a c
    omega

/-- `1.2.3.4`, the same address mapped, and `::1`, which is before the mapped one and after the
other. -/
def straddlingAddrs : Set TorAddr :=
  {.inet 0x01020304#32, .inet6 ⟨List.replicate 10 0 ++ [255, 255, 1, 2, 3, 4], rfl⟩,
    .inet6 ⟨List.replicate 15 0 ++ [1], rfl⟩}

theorem straddlingAddrs_not_ordered : ¬ OrdersAddrs .semantic straddlingAddrs := by
  intro h
  have heq := h.trans (.inet6 ⟨List.replicate 10 0 ++ [255, 255, 1, 2, 3, 4], rfl⟩)
    (by simp [straddlingAddrs]) (.inet 0x01020304#32) (by simp [straddlingAddrs])
    (.inet6 ⟨List.replicate 15 0 ++ [1], rfl⟩) (by simp [straddlingAddrs]) (by decide) (by decide)
  revert heq
  decide

end Order

end TorDaemon.Policies
