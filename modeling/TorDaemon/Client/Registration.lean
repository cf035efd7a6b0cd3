import TorDaemon.Client.Reversemap

/-! A random virtual address is in its network: the assertion at the end of
`get_random_virtual_addr` does not fail. -/
namespace TorDaemon.Client.Addressmap
open Library.NetworkOrder Library.Reachability SharedRandom
open Net (torAddrBufLen torAddrParse)
open Policies (TorAddr)

/-- The byte that is part network, part random, has the high bits of the network. -/
theorem masked_byte (b c : UInt8) {r : ℕ} (hpos : 0 < r) (hr : r < 8) :
    ((b &&& 255 >>> UInt8.ofNat r) ||| (c &&& ~~~(255 >>> UInt8.ofNat r))).toNat >>> (8 - r) =
      c.toNat >>> (8 - r) := by
  have hbits : ((b &&& 255 >>> UInt8.ofNat r) ||| (c &&& ~~~(255 >>> UInt8.ofNat r))).toBitVec >>>
      (8 - r) = c.toBitVec >>> (8 - r) := by
    interval_cases r
    all_goals
      ext i hi
      interval_cases i <;> simp
  exact congrArg BitVec.toNat hbits

section Networks
variable {n : ℕ} {conf : VirtualAddrConf n} {bytes : Bytes}

theorem and_seven (m : ℕ) : m &&& 7 = m % 8 := Nat.and_two_pow_sub_one_eq_mod m 3

theorem bits_div_le (conf : VirtualAddrConf n) : conf.bits / 8 ≤ n := by
  have hbits := conf.bits_le
  omega

theorem take_replaceBits (conf : VirtualAddrConf n) (bytes : Bytes) :
    (replaceBits conf bytes).take (conf.bits / 8) = conf.addr.val.take (conf.bits / 8) := by
  have hlen : (conf.addr.val.take (conf.bits / 8)).length = conf.bits / 8 := by
    rw [List.length_take, conf.addr.property]
    exact Nat.min_eq_left (bits_div_le conf)
  unfold replaceBits
  split
  · rw [List.take_append_of_le_length hlen.ge, List.take_take, Nat.min_self]
  · rw [List.take_set_of_le (Nat.le_refl _), List.take_append_of_le_length hlen.ge,
      List.take_take, Nat.min_self]

theorem getD_replaceBits (h : bytes.length = n) (hpart : conf.bits % 8 ≠ 0) :
    ((replaceBits conf bytes).getD (conf.bits / 8) 0).toNat >>> (8 - conf.bits % 8) =
      (conf.addr.val.getD (conf.bits / 8) 0).toNat >>> (8 - conf.bits % 8) := by
  have hk : conf.bits / 8 < (conf.addr.val.take (conf.bits / 8) ++
      bytes.drop (conf.bits / 8)).length := by
    have hbits := conf.bits_le
    rw [List.length_append, List.length_take, List.length_drop, conf.addr.property, h]
    omega
  have hand := and_seven conf.bits
  unfold replaceBits
  rw [hand, if_neg hpart, List.getD_eq_getElem?_getD, List.getElem?_set_self hk, Option.getD_some]
  exact masked_byte _ _ (by omega) (Nat.mod_lt _ (by omega))

theorem replaceBits_network (conf : VirtualAddrConf n) (h : bytes.length = n) :
    ofBigEndian (replaceBits conf bytes) / 2 ^ (8 * n - conf.bits) =
      ofBigEndian conf.addr.val / 2 ^ (8 * n - conf.bits) := by
  have hlen := replaceBits_length conf h
  have hconf := conf.addr.property
  have hbits := conf.bits_le
  have htake := take_replaceBits conf bytes
  by_cases hfull : conf.bits / 8 = n
  · rw [hfull, List.take_of_length_le hlen.le, List.take_of_length_le hconf.le] at htake
    rw [htake]
  · rw [← Nat.div_add_mod conf.bits 8, ofBigEndian_div_eq_iff hlen hconf (by omega) (by omega)]
    refine ⟨htake, ?_⟩
    by_cases hpart : conf.bits % 8 = 0
    · rw [hpart, shiftRight_eight, shiftRight_eight]
    · exact getD_replaceBits h hpart

theorem contains_replaceBits_ipv4 (conf : VirtualAddrConf 4) (bytes : AddrBytes 4) :
    conf.contains torAddrFromIpv4n (torAddrFromIpv4n
      ⟨replaceBits conf bytes.val, replaceBits_length conf bytes.property⟩) = true := by
  have hnetwork := replaceBits_network conf bytes.property
  have hlt {b : Bytes} (h : b.length = 4) : ofBigEndian b < 2 ^ 32 := by
    have hlt := ofBigEndian_lt b
    rwa [h] at hlt
  rw [VirtualAddrConf.contains, decide_eq_true_eq, torAddrFromIpv4n, torAddrFromIpv4n,
    Policies.compareInet_eq_zero, Nat.min_eq_left conf.bits_le, BitVec.toNat_ofNat,
    BitVec.toNat_ofNat, Nat.mod_eq_of_lt (hlt (replaceBits_length conf bytes.property)),
    Nat.mod_eq_of_lt (hlt conf.addr.property)]
  exact hnetwork

theorem contains_replaceBits_ipv6 (conf : VirtualAddrConf 16) (bytes : AddrBytes 16) :
    conf.contains torAddrFromIpv6Bytes (torAddrFromIpv6Bytes
      ⟨replaceBits conf bytes.val, replaceBits_length conf bytes.property⟩) = true := by
  rw [VirtualAddrConf.contains, decide_eq_true_eq, torAddrFromIpv6Bytes, torAddrFromIpv6Bytes,
    Policies.compareInet6_eq_zero, Nat.min_eq_left conf.bits_le]
  exact replaceBits_network conf bytes.property

end Networks

/-! Registrations, and runs of all the operations on the address map. -/

/-! ### Registering -/

/-- The mapping is removed, by a registration without a target or with the address itself. -/
def Removes (address : Bytes) (newAddress : Option Bytes) (wildcardAddr wildcardNewAddr : Bool) :
    Prop :=
  ∀ new, newAddress = some new → strcaseeq address new = true ∧ wildcardAddr = wildcardNewAddr

instance {address : Bytes} {newAddress : Option Bytes} {wildcardAddr wildcardNewAddr : Bool} :
    Decidable (Removes address newAddress wildcardAddr wildcardNewAddr) :=
  match newAddress with
  | none => .isTrue (by intro new h; cases h)
  | some new => decidable_of_iff
      (strcaseeq address new = true ∧ wildcardAddr = wildcardNewAddr)
      ⟨fun h new' hnew => Option.some.inj hnew ▸ h, fun h => h new rfl⟩

/-- A mapping that a registration removes or replaces can be taken away, or is replaced by
one to the same target, which is not a virtual address. -/
def RegisterOk (env : Env) (address : Bytes) (newAddress : Option Bytes) (expires : ℤ)
    (wildcardAddr wildcardNewAddr : Bool) (s : State) : Prop :=
  (wildcardNewAddr = true → wildcardAddr = true) ∧
    ∀ ent, s.addressmap.lookup address = some ent →
      if Removes address newAddress wildcardAddr wildcardNewAddr then
        Unlinks env s.virtaddressReversemap address false ent
      else expires ≤ 1 → Unlinks env s.virtaddressReversemap address false ent ∨
        ent.newAddress = newAddress ∧
          ∀ target, newAddress = some target → addressIsInVirtualRange env target = false

/-- A virtual address of the type is there already. If not, of the random names one is new,
and the address that is chosen is not the target itself; where none is left, the target has
no entry in the reverse map. -/
def RegisterVirtualOk (env : Env) (type : ResolvedType) (newAddress : Bytes) (rand : Random)
    (s : State) : Prop :=
  (∃ ve, s.virtaddressReversemap.lookup newAddress = some (.live ve) ∧ (ve.slot type).isSome) ∨
    (type = .hostname → ∃ i < rand.names, s.addressmap.lookup (virtualHostname rand i) = none) ∧
      ∀ choice, addressmapGetVirtualAddress env s.addressmap rand type = some choice →
        match choice with
        | none => s.virtaddressReversemap.lookup newAddress = none
        | some v => strcaseeq v newAddress = false

section Registering
variable {env : Env} {s : State} {address : Bytes} {newAddress : Option Bytes} {expires : ℤ}
  {source : AddrMapSrc} {wildcardAddr wildcardNewAddr : Bool} {ent : AddressmapEntry}

theorem removes_iff : (newAddress.all fun new =>
    strcaseeq address new && decide (wildcardAddr = wildcardNewAddr)) = true ↔
      Removes address newAddress wildcardAddr wildcardNewAddr := by
  cases newAddress <;> simp [Removes]

theorem isSome_of_not_removes
    (h : ¬ Removes address newAddress wildcardAddr wildcardNewAddr) : newAddress.isSome := by
  cases newAddress with
  | none => exact absurd (fun new hnew => by cases hnew) h
  | some new => rfl

theorem AllMapped.insert (h : AllMapped s) (hent : ent.newAddress.isSome)
    (reversemap : Strmap Vent) : AllMapped ⟨s.addressmap.insert address ent, reversemap⟩ := by
  intro other ent' hent'
  by_cases heq : other = address
  · subst heq
    rw [AList.lookup_insert] at hent'
    exact Option.some.inj hent' ▸ hent
  · rw [AList.lookup_insert_ne heq] at hent'
    exact h other ent' hent'

/-- A new mapping changes nothing for other addresses. -/
theorem linked_insert {reversemap : Strmap Vent} (h : Linked reversemap fun target v =>
      v ≠ address ∧ addressIsInVirtualRange env v = true ∧ MapsTo s.addressmap target v) :
    Consistent env ⟨s.addressmap.insert address ent, reversemap⟩ := by
  apply h.mono
  rintro target v ⟨hne, hvirtual, ent', hent', htarget⟩
  exact ⟨hvirtual, ent', by rwa [AList.lookup_insert_ne hne], htarget⟩

/-- A mapping to the same target keeps what leads back from it. -/
theorem consistent_insert_same (h : Consistent env s)
    (hold : ∀ old, s.addressmap.lookup address = some old → old.newAddress = ent.newAddress) :
    Consistent env { s with addressmap := s.addressmap.insert address ent } := by
  apply Linked.mono h
  rintro target v ⟨hvirtual, ent', hent', htarget⟩
  refine ⟨hvirtual, ?_⟩
  by_cases heq : v = address
  · subst heq
    exact ⟨ent, AList.lookup_insert .., (hold ent' hent').symm.trans htarget⟩
  · exact ⟨ent', by rwa [AList.lookup_insert_ne heq], htarget⟩

theorem register_spec (h : Inv env s)
    (hok : RegisterOk env address newAddress expires wildcardAddr wildcardNewAddr s) :
    ∃ s', addressmapRegister env address newAddress expires source wildcardAddr wildcardNewAddr s =
      some s' ∧ Inv env s' := by
  obtain ⟨hwild, hent⟩ := hok
  have hassert : (wildcardNewAddr && !wildcardAddr) = false := by
    cases wildcardNewAddr <;> simp_all
  simp only [addressmapRegister, hassert, Bool.false_eq_true, if_false, removes_iff]
  cases hlook : s.addressmap.lookup address with
  | none =>
    by_cases hremoves : Removes address newAddress wildcardAddr wildcardNewAddr
    · exact ⟨s, by simp only [if_pos hremoves], h⟩
    · refine ⟨_, by simp only [if_neg hremoves]; rfl, ?_, h.allMapped.insert ?_ _⟩
      · apply linked_insert
        apply h.consistent.avoid
        rintro target ve - ⟨-, ent, hent, -⟩
        rw [hlook] at hent
        cases hent
      · exact isSome_of_not_removes hremoves
  | some ent =>
    have hok := hent ent hlook
    by_cases hremoves : Removes address newAddress wildcardAddr wildcardNewAddr
    · rw [if_pos hremoves] at hok
      obtain ⟨s', hs', hconsistent, hmap⟩ := entRemove_spec h.consistent hlook hok
      have herase := h.allMapped.erase address s'.virtaddressReversemap
      rw [← hmap] at herase
      exact ⟨s', by simp only [if_pos hremoves, hs'], hconsistent, herase⟩
    · rw [if_neg hremoves] at hok
      obtain ⟨old, hold⟩ := Option.isSome_iff_exists.mp (h.allMapped address ent hlook)
      have hsome := isSome_of_not_removes hremoves
      simp only [if_neg hremoves, hold]
      by_cases htemporary : 1 < expires
      · exact ⟨s, if_pos htemporary, h⟩
      · have hne : expires ≠ 2 := by omega
        have hcases := hok (by omega)
        by_cases hvirtual : addressIsInVirtualRange env old = true
        · have hunlinks : Unlinks env s.virtaddressReversemap address false ent := by
            rcases hcases with hunlinks | ⟨hsame, hreal⟩
            · exact hunlinks
            · have hfalse := hreal old (hsame.symm.trans hold)
              rw [hvirtual] at hfalse
              cases hfalse
          obtain ⟨reversemap, hremove, hlinked⟩ := unlink_spec h.consistent hlook hunlinks
          refine ⟨⟨s.addressmap.insert address ⟨newAddress, if expires = 2 then 1 else expires,
            source, wildcardAddr, wildcardNewAddr⟩, reversemap⟩, ?_, linked_insert hlinked, ?_⟩
          · simp [htemporary, hvirtual, hne, hremove]
          · exact h.allMapped.insert hsome _
        · refine ⟨⟨s.addressmap.insert address ⟨newAddress, if expires = 2 then 1 else expires,
            source, wildcardAddr, wildcardNewAddr⟩, s.virtaddressReversemap⟩, ?_, ?_,
            h.allMapped.insert hsome _⟩
          · simp [htemporary, hvirtual]
          · rcases hcases with hunlinks | ⟨hsame, -⟩
            · apply linked_insert
              obtain ⟨reversemap, hremove, hlinked⟩ := unlink_spec h.consistent hlook hunlinks
              simp only [addressmapVirtaddressRemove, hold, hvirtual, Bool.false_eq_true,
                if_false, Option.some.injEq] at hremove
              exact hremove ▸ hlinked
            · apply consistent_insert_same h.consistent
              intro old' hold'
              cases hlook.symm.trans hold'
              exact hsame

end Registering

section Virtual
variable {env : Env} {s : State} {rand : Random} {type : ResolvedType}
  {addressmap : Strmap AddressmapEntry} {target v : Bytes} {pick : ℕ → Option TorAddr}

theorem tryAddresses_spec {attempts : ℕ} (hpick : ∀ i addr, pick i = some addr → addr ≠ .unspec ∧
      addressIsInVirtualRange env (Net.fmtAndDecorateAddr addr) = true)
    (h : tryAddresses addressmap pick attempts = some (some v)) :
    addressIsInVirtualRange env v = true ∧ addressmap.lookup v = none := by
  induction attempts with
  | zero => cases h
  | succ attempts ih =>
    simp only [tryAddresses] at h
    cases haddr : pick attempts with
    | none => simp [haddr] at h
    | some addr =>
      obtain ⟨hne, hvirtual⟩ := hpick attempts addr haddr
      have htext : Net.torAddrToStr addr virtualBufLen true = some (Net.fmtAndDecorateAddr addr) :=
        Net.torAddrToStr_decorated hne (by decide) (by decide)
      obtain ⟨tmp, htmp⟩ := Net.torAddrToStr_isSome hne (Nat.le_refl torAddrBufLen) (by decide)
      simp only [haddr, htext, htmp] at h
      split_ifs at h with hskip hmapped
      · exact ih h
      · exact ih h
      · cases Option.some.inj h
        rw [Bool.or_eq_true, not_or, Bool.not_eq_true, Option.isSome_eq_false_iff,
          Option.isNone_iff_eq_none] at hmapped
        exact ⟨hvirtual, hmapped.1⟩

theorem getRandomVirtualAddr_spec {n : ℕ} {fromBytes : AddrBytes n → TorAddr}
    {conf : VirtualAddrConf n} {bytes : AddrBytes n} {addr : TorAddr}
    (h : getRandomVirtualAddr fromBytes conf bytes = some addr) :
    addr = fromBytes ⟨replaceBits conf bytes.val, replaceBits_length conf bytes.property⟩ ∧
      conf.contains fromBytes addr = true := by
  unfold getRandomVirtualAddr at h
  dsimp only at h
  rw [Option.ite_none_right_eq_some] at h
  exact ⟨(Option.some.inj h.2).symm, Option.some.inj h.2 ▸ h.1⟩

theorem getVirtualAddress_spec
    (h : addressmapGetVirtualAddress env addressmap rand type = some (some v)) :
    addressIsInVirtualRange env v = true ∧ addressmap.lookup v = none := by
  cases type with
  | hostname =>
    obtain ⟨buf, hfind, hbuf⟩ := Option.map_eq_some_iff.mp h
    cases hbuf
    obtain ⟨i, -, rfl⟩ := List.mem_map.mp (List.mem_of_find?_eq_some hfind)
    refine ⟨?_, by simpa using List.find?_some hfind⟩
    have hsuffix : strcasecmpendEq (virtualHostname rand i) (ascii ".virtual") = true := by
      simp [strcasecmpendEq, virtualHostname]
    simp [addressIsInVirtualRange, hsuffix]
  | ipv4 =>
    apply tryAddresses_spec _ h
    intro i addr haddr
    obtain ⟨rfl, hcontains⟩ := getRandomVirtualAddr_spec haddr
    refine ⟨by simp [torAddrFromIpv4n], ?_⟩
    rw [addressIsInVirtualRange, torAddrParse,
      Net.torAddrParseImpl_fmt (by simp [torAddrFromIpv4n])]
    exact Bool.or_eq_true_iff.mpr (.inr hcontains)
  | ipv6 =>
    apply tryAddresses_spec _ h
    intro i addr haddr
    obtain ⟨rfl, hcontains⟩ := getRandomVirtualAddr_spec haddr
    refine ⟨by simp [torAddrFromIpv6Bytes], ?_⟩
    rw [addressIsInVirtualRange, torAddrParse,
      Net.torAddrParseImpl_fmt (by simp [torAddrFromIpv6Bytes])]
    exact Bool.or_eq_true_iff.mpr (.inr hcontains)

theorem tryAddresses_isSome
    (hpick : ∀ i, ∃ addr, pick i = some addr ∧ addr ≠ .unspec) (attempts : ℕ) :
    (tryAddresses addressmap pick attempts).isSome := by
  induction attempts with
  | zero => rfl
  | succ attempts ih =>
    obtain ⟨addr, haddr, hne⟩ := hpick attempts
    have htext : Net.torAddrToStr addr virtualBufLen true = some (Net.fmtAndDecorateAddr addr) :=
      Net.torAddrToStr_decorated hne (by decide) (by decide)
    obtain ⟨tmp, htmp⟩ := Net.torAddrToStr_isSome hne (Nat.le_refl torAddrBufLen) (by decide)
    simp only [tryAddresses, haddr, htext, htmp]
    split_ifs
    · exact ih
    · exact ih
    · rfl

theorem getVirtualAddress_isSome
    (h : type = .hostname → ∃ i < rand.names, addressmap.lookup (virtualHostname rand i) = none) :
    ∃ choice, addressmapGetVirtualAddress env addressmap rand type = some choice := by
  apply Option.isSome_iff_exists.mp
  cases type with
  | hostname =>
    obtain ⟨i, hi, hnew⟩ := h rfl
    simp only [addressmapGetVirtualAddress, Option.isSome_map, List.find?_isSome, List.mem_map,
      List.mem_range]
    exact ⟨_, ⟨i, hi, rfl⟩, by simp [hnew]⟩
  | ipv4 =>
    apply tryAddresses_isSome
    intro i
    exact ⟨_, if_pos (contains_replaceBits_ipv4 ..), by simp [torAddrFromIpv4n]⟩
  | ipv6 =>
    apply tryAddresses_isSome
    intro i
    exact ⟨_, if_pos (contains_replaceBits_ipv6 ..), by simp [torAddrFromIpv6Bytes]⟩

theorem has_setSlot {ve : VirtaddressEntry} {w : Bytes} (h : (ve.setSlot v type).Has w) :
    w = v ∨ ve.Has w := by
  obtain ⟨type', hslot⟩ := h
  by_cases heq : type' = type
  · subst heq
    left
    cases type' <;> exact (Option.some.inj hslot).symm
  · right
    refine ⟨type', ?_⟩
    cases type <;> cases type' <;> first | exact absurd rfl heq | exact hslot

theorem registerNewVirtual_spec {vent : Option VirtaddressEntry} (h : Inv env s)
    (hvent : s.virtaddressReversemap.lookup target = vent.map .live) {choice : Option Bytes}
    (hget : addressmapGetVirtualAddress env s.addressmap rand type = some choice)
    (hnone : choice = none → vent = none)
    (hne : ∀ v, choice = some v → strcaseeq v target = false) :
    ∃ s', registerNewVirtual env type target rand vent s = some s' ∧ Inv env s' := by
  simp only [registerNewVirtual, hget]
  cases choice with
  | none => exact ⟨s, by simp [hnone rfl], h⟩
  | some v =>
    obtain ⟨hvirtual, hnew⟩ := getVirtualAddress_spec hget
    have hcase := hne v rfl
    simp only [addressmapRegister, hnew, hcase, Bool.and_true, Bool.false_and, Option.all_some,
      Bool.not_false, Bool.false_eq_true, if_false, if_true]
    refine ⟨_, rfl, ?_, h.allMapped.insert rfl _⟩
    have havoid : Linked s.virtaddressReversemap fun target' w =>
        w ≠ v ∧ addressIsInVirtualRange env w = true ∧ MapsTo s.addressmap target' w := by
      apply h.consistent.avoid
      rintro target' ve - ⟨-, ent, hent, -⟩
      rw [hnew] at hent
      cases hent
    have hlinked : Consistent env ⟨s.addressmap.insert v ⟨some target, 1, .automap, false, false⟩,
        s.virtaddressReversemap⟩ := linked_insert havoid
    apply Linked.insert hlinked
    intro w hw
    rcases has_setSlot hw with rfl | hw
    · exact ⟨hvirtual, _, AList.lookup_insert .., rfl⟩
    · cases vent with
      | none =>
        obtain ⟨type', hslot⟩ := hw
        cases type' <;> cases hslot
      | some ve =>
        obtain ⟨ve', hve', hall⟩ := hlinked.live hvent
        cases hve'
        exact hall w hw

theorem registerVirtual_spec (h : Inv env s) (hok : RegisterVirtualOk env type target rand s) :
    ∃ s', addressmapRegisterVirtualAddress env type target rand s = some s' ∧ Inv env s' := by
  unfold addressmapRegisterVirtualAddress
  cases hlook : s.virtaddressReversemap.lookup target with
  | none =>
    rcases hok with ⟨ve, hve, -⟩ | ⟨hends, hchoices⟩
    · rw [hlook] at hve
      cases hve
    · obtain ⟨choice, hget⟩ := getVirtualAddress_isSome hends
      apply registerNewVirtual_spec h hlook hget (fun _ => rfl)
      rintro v rfl
      exact hchoices _ hget
  | some vent =>
    obtain ⟨ve, rfl, hall⟩ := h.consistent.live hlook
    dsimp only
    cases hslot : ve.slot type with
    | some v =>
      obtain ⟨-, ent, hent, htarget⟩ := hall v ⟨type, hslot⟩
      exact ⟨s, by simp [hent, htarget, strcaseeq], h⟩
    | none =>
      rcases hok with ⟨ve', hve', hsome⟩ | ⟨hends, hchoices⟩
      · rw [hlook] at hve'
        cases hve'
        simp [hslot] at hsome
      · obtain ⟨choice, hget⟩ := getVirtualAddress_isSome hends
        have hchoice := hchoices _ hget
        apply registerNewVirtual_spec h hlook hget
        · rintro rfl
          rw [hlook] at hchoice
          cases hchoice
        · rintro v rfl
          exact hchoice

end Virtual

/-! ### Runs -/

/-- The condition of each operation. -/
def StepOk (env : Env) (s : State) : Op → Prop
  | .register address newAddress expires _ wildcardAddr wildcardNewAddr =>
    RegisterOk env address newAddress expires wildcardAddr wildcardNewAddr s
  | .registerVirtual type newAddress rand => RegisterVirtualOk env type newAddress rand s
  | .clearTrackexit none _ => True
  | .clearTrackexit (some exitname) order =>
    LoopOk env false (isTrackexitTo exitname) order s
  | .clearInvalidAutomaps options order => LoopOk env false (isInvalidAutomap env options) order s
  | .clearConfigured order => LoopOk env true (expiresWithin 0 0) order s
  | .clearTransient order => LoopOk env true (expiresWithin 2 timeMax) order s
  | .clean now order => LoopOk env true (expiresWithin 2 now) order s

section Runs
variable {env : Env} {s : State}

theorem step_spec {op : Op} (h : Inv env s) (hok : StepOk env s op) :
    ∃ s', step env s op = some s' ∧ Inv env s' := by
  cases op with
  | register => exact register_spec h hok
  | registerVirtual => exact registerVirtual_spec h hok
  | clearTrackexit exitname order =>
    cases exitname with
    | none => exact ⟨s, rfl, h⟩
    | some exitname => exact forEachModify_spec h (isTrackexitTo_decides exitname) hok
  | clearInvalidAutomaps options => exact forEachModify_spec h (isInvalidAutomap_decides options) hok
  | clearConfigured => exact forEachModify_spec h (expiresWithin_decides _ _) hok
  | clearTransient => exact forEachModify_spec h (expiresWithin_decides _ _) hok
  | clean => exact forEachModify_spec h (expiresWithin_decides _ _) hok

theorem inv_empty (env : Env) : Inv env .empty where
  consistent := by
    intro target vent hvent
    simp [State.empty] at hvent
  allMapped := by
    intro address ent hent
    simp [State.empty] at hent

/-- Where no operation takes away the address of an entry by which the reverse map leads to
it, no operation fails and the reverse map agrees with the address map. -/
theorem reversemap_consistent {ops : List Op} (hok : Guarded (step env) (StepOk env) .empty ops) :
    ∃ s', run (step env) .empty ops = some s' ∧ Consistent env s' := by
  obtain ⟨s', hs', hinv⟩ := exists_run (inv_empty env) hok step_spec
  exact ⟨s', hs', hinv.consistent⟩

end Runs

section Default

/-- The networks are the default ones, 127.192.0.0/10 and [FE80::]/10. -/
def defaultEnv : Env where
  virtaddrConfIpv4 := ⟨⟨[127, 192, 0, 0], rfl⟩, 10, by decide⟩
  virtaddrConfIpv6 := ⟨⟨[254, 128, 0, 0, 0, 0, 0, 0, 0, 0, 0, 0, 0, 0, 0, 0], rfl⟩, 10, by decide⟩

def zeros : Random := ⟨fun n _ => ⟨List.replicate n 0, List.length_replicate ..⟩, 1⟩

def mapFoo : Op := .registerVirtual .hostname (ascii "foo.com") zeros

def remapTo (newAddress : Bytes) : Op :=
  .register (ascii "aaaaaaaaaaaaaaaa.virtual") (some newAddress) 1 .controller false false

theorem reversemap_consistent_foo :
    ∃ s', run (step defaultEnv) .empty [mapFoo, mapFoo] = some s' ∧ Consistent defaultEnv s' := by
  apply reversemap_consistent
  refine ⟨.inr ⟨fun _ => ⟨0, by decide, rfl⟩, ?_⟩, ?_⟩
  · rintro choice hchoice
    obtain rfl : some (ascii "aaaaaaaaaaaaaaaa.virtual") = choice :=
      Option.some.inj ((by decide +kernel : _ = _).symm.trans hchoice)
    decide +kernel
  · intro s hs
    refine ⟨.inl ⟨⟨none, none, some (ascii "aaaaaaaaaaaaaaaa.virtual")⟩, ?_, rfl⟩, fun _ _ => trivial⟩
    obtain rfl := Option.some.inj hs
    decide +kernel

/-- The virtual address of a host is given another target. -/
theorem reversemap_outlives_mapping :
    ∃ s', run (step defaultEnv) .empty [mapFoo, remapTo (ascii "bar.com")] = some s' ∧
      ¬ Consistent defaultEnv s' := by
  have hrun : (run (step defaultEnv) .empty [mapFoo, remapTo (ascii "bar.com")]).any (fun s =>
      s.virtaddressReversemap.lookup (ascii "foo.com") =
        some (.live ⟨none, none, some (ascii "aaaaaaaaaaaaaaaa.virtual")⟩) &&
      (s.addressmap.lookup (ascii "aaaaaaaaaaaaaaaa.virtual")).map AddressmapEntry.newAddress =
        some (some (ascii "bar.com"))) = true := by decide +kernel
  obtain ⟨s', hs', hlook⟩ := (Option.any_eq_true _ _).mp hrun
  simp only [Bool.and_eq_true, decide_eq_true_eq] at hlook
  refine ⟨s', hs', ?_⟩
  intro hconsistent
  obtain ⟨ve, hve, hall⟩ := hconsistent.live hlook.1
  cases hve
  obtain ⟨-, ent, hent, htarget⟩ := hall _ ⟨.hostname, rfl⟩
  have hbar := hlook.2
  rw [hent, Option.map_some, htarget] at hbar
  exact absurd hbar (by decide +kernel)

end Default

end TorDaemon.Client.Addressmap
