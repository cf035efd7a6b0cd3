import TorDaemon.Client.Addressmap

/-! The invariant of the reverse map of virtual addresses: what it maps a target to is a
virtual address that the address map maps back to the target. -/
namespace TorDaemon.Client.Addressmap
open Library.NetworkOrder Library.Reachability SharedRandom

/-- One of the three addresses of an entry. -/
def VirtaddressEntry.Has (ve : VirtaddressEntry) (v : Bytes) : Prop := ∃ type, ve.slot type = some v

/-- Every entry is live, and what it holds stands in the relation to its target. -/
def Linked (reversemap : Strmap Vent) (P : Bytes → Bytes → Prop) : Prop :=
  ∀ target vent, reversemap.lookup target = some vent →
    ∃ ve, vent = .live ve ∧ ∀ v, ve.Has v → P target v

def MapsTo (addressmap : Strmap AddressmapEntry) (target v : Bytes) : Prop :=
  ∃ ent, addressmap.lookup v = some ent ∧ ent.newAddress = some target

/-- The invariant that the source states of `virtaddress_reversemap`. -/
def Consistent (env : Env) (s : State) : Prop :=
  Linked s.virtaddressReversemap fun target v =>
    addressIsInVirtualRange env v = true ∧ MapsTo s.addressmap target v

/-- No resolve is in progress. -/
def AllMapped (s : State) : Prop :=
  ∀ address ent, s.addressmap.lookup address = some ent → ent.newAddress.isSome

/-- The entry can be taken away. Where its target is not a virtual address the reverse map
must not lead back from it, as nothing is removed there. Where it is one, the three strings
that are compared must be there, if the reverse map has an entry at all. -/
def Unlinks (env : Env) (reversemap : Strmap Vent) (address : Bytes) (addressFreed : Bool)
    (ent : AddressmapEntry) : Prop :=
  ∀ target, ent.newAddress = some target →
    if addressIsInVirtualRange env target then
      ∀ ve, reversemap.lookup target = some (.live ve) → addressFreed = false ∧
        ve.ipv4Address.isSome ∧ ve.ipv6Address.isSome ∧ ve.hostnameAddress.isSome
    else ∀ ve, reversemap.lookup target = some (.live ve) → ¬ ve.Has address

section Removal
variable {env : Env} {s : State} {reversemap : Strmap Vent} {P Q : Bytes → Bytes → Prop}
  {address target : Bytes} {ent : AddressmapEntry} {addressFreed : Bool} {ve : VirtaddressEntry}

section
variable (h : Linked reversemap P)
include h

theorem Linked.mono (hPQ : ∀ target v, P target v → Q target v) : Linked reversemap Q := by
  intro target vent hvent
  obtain ⟨ve, hve, hall⟩ := h target vent hvent
  exact ⟨ve, hve, fun v hv => hPQ target v (hall v hv)⟩

theorem Linked.live {vent : Vent} (hvent : reversemap.lookup target = some vent) :
    ∃ ve, vent = .live ve ∧ ∀ v, ve.Has v → P target v := h target vent hvent

theorem Linked.erase (target : Bytes) : Linked (reversemap.erase target) P := by
  intro target' vent hvent
  by_cases heq : target' = target
  · subst heq
    simp at hvent
  · rw [AList.lookup_erase_ne heq] at hvent
    exact h target' vent hvent

theorem Linked.insert (hve : ∀ v, ve.Has v → P target v) :
    Linked (reversemap.insert target (.live ve)) P := by
  intro target' vent hvent
  by_cases heq : target' = target
  · subst heq
    rw [AList.lookup_insert] at hvent
    exact ⟨ve, (Option.some.inj hvent).symm, hve⟩
  · rw [AList.lookup_insert_ne heq] at hvent
    exact h target' vent hvent

end

theorem clearSlot_eq_some {slot : Option Bytes} {v : Bytes} (h : clearSlot address slot = some v) :
    v ≠ address ∧ slot = some v := by
  unfold clearSlot at h
  split at h
  · cases h
  · rename_i hne
    exact ⟨fun heq => hne (heq ▸ h), h⟩

theorem has_cleared {v : Bytes} (h : VirtaddressEntry.Has ⟨clearSlot address ve.ipv4Address,
    clearSlot address ve.ipv6Address, clearSlot address ve.hostnameAddress⟩ v) :
    v ≠ address ∧ ve.Has v := by
  obtain ⟨type, hslot⟩ := h
  cases type with
  | ipv4 => exact (clearSlot_eq_some hslot).imp_right fun h => ⟨.ipv4, h⟩
  | ipv6 => exact (clearSlot_eq_some hslot).imp_right fun h => ⟨.ipv6, h⟩
  | hostname => exact (clearSlot_eq_some hslot).imp_right fun h => ⟨.hostname, h⟩

theorem Linked.avoid (h : Linked reversemap P)
    (hne : ∀ target ve, reversemap.lookup target = some (.live ve) → P target address →
      ¬ ve.Has address) : Linked reversemap fun target v => v ≠ address ∧ P target v := by
  intro target vent hvent
  obtain ⟨ve, rfl, hall⟩ := h target vent hvent
  refine ⟨ve, rfl, ?_⟩
  intro v hv
  refine ⟨?_, hall v hv⟩
  rintro rfl
  exact hne target ve hvent (hall v hv) hv

/-- Afterwards the reverse map does not lead back to the address. -/
theorem virtaddressRemove_spec (h : Linked reversemap P)
    (htarget : ∀ target, P target address → ent.newAddress = some target)
    (hunlinks : Unlinks env reversemap address addressFreed ent) :
    ∃ reversemap', addressmapVirtaddressRemove env address addressFreed ent reversemap =
        some reversemap' ∧
      Linked reversemap' fun target v => v ≠ address ∧ P target v := by
  cases hnew : ent.newAddress with
  | none =>
    refine ⟨reversemap, by rw [addressmapVirtaddressRemove, hnew], h.avoid ?_⟩
    intro target ve hlook hP
    exact absurd (htarget target hP) (by simp [hnew])
  | some target =>
    have hsame : ∀ target', P target' address → target' = target := fun target' hP =>
      Option.some.inj ((htarget target' hP).symm.trans hnew)
    have hunlink := hunlinks target hnew
    simp only [addressmapVirtaddressRemove, hnew]
    by_cases hvirtual : addressIsInVirtualRange env target = true
    · simp only [if_pos hvirtual] at hunlink ⊢
      cases hlook : reversemap.lookup target with
      | none =>
        refine ⟨reversemap, rfl, h.avoid ?_⟩
        intro target' ve hlook' hP
        rw [hsame target' hP, hlook] at hlook'
        cases hlook'
      | some vent =>
        obtain ⟨ve, rfl, hall⟩ := h.live hlook
        obtain ⟨rfl, h4, h6, hhost⟩ := hunlink ve hlook
        have hset : (false || ve.ipv4Address.isNone || ve.ipv6Address.isNone ||
            ve.hostnameAddress.isNone) = false := by
          simp [Option.isNone_eq_false_iff, h4, h6, hhost]
        -- apart from the target, nothing in the reverse map leads back to the address
        have hrest : Linked (reversemap.erase target) fun target v => v ≠ address ∧ P target v := by
          apply (h.erase target).avoid
          intro target' ve hlook' hP
          rw [hsame target' hP] at hlook'
          simp at hlook'
        have hcleared := fun v (hv : VirtaddressEntry.Has ⟨clearSlot address ve.ipv4Address,
            clearSlot address ve.ipv6Address, clearSlot address ve.hostnameAddress⟩ v) =>
          (has_cleared hv).imp_right (hall v)
        simp only [hset, Bool.false_eq_true, if_false]
        split
        · exact ⟨_, rfl, hrest⟩
        · refine ⟨_, rfl, ?_⟩
          have hinsert := hrest.insert hcleared
          intro target' vent' hlook'
          apply hinsert target' vent'
          by_cases heq : target' = target
          · subst heq
            simpa using hlook'
          · rw [AList.lookup_insert_ne heq] at hlook' ⊢
            rwa [AList.lookup_erase_ne heq]
    · simp only [if_neg hvirtual] at hunlink ⊢
      refine ⟨reversemap, rfl, h.avoid ?_⟩
      intro target' ve hlook hP
      rw [hsame target' hP] at hlook
      exact hunlink ve hlook

theorem unlink_spec (h : Consistent env s) (hent : s.addressmap.lookup address = some ent)
    (hunlinks : Unlinks env s.virtaddressReversemap address addressFreed ent) :
    ∃ reversemap, addressmapVirtaddressRemove env address addressFreed ent
        s.virtaddressReversemap = some reversemap ∧
      Linked reversemap fun target v =>
        v ≠ address ∧ addressIsInVirtualRange env v = true ∧ MapsTo s.addressmap target v := by
  apply virtaddressRemove_spec h _ hunlinks
  rintro target ⟨-, ent', hent', htarget⟩
  cases hent.symm.trans hent'
  exact htarget

theorem entRemove_spec (h : Consistent env s) (hent : s.addressmap.lookup address = some ent)
    (hunlinks : Unlinks env s.virtaddressReversemap address addressFreed ent) :
    ∃ s', addressmapEntRemove env address addressFreed ent s = some s' ∧ Consistent env s' ∧
      s'.addressmap = s.addressmap.erase address := by
  obtain ⟨reversemap, hremove, hlinked⟩ := unlink_spec h hent hunlinks
  refine ⟨_, by rw [addressmapEntRemove, hremove, Option.map_some], ?_, rfl⟩
  apply hlinked.mono
  rintro target v ⟨hne, hvirtual, ent', hent', htarget⟩
  exact ⟨hvirtual, ent', by rwa [AList.lookup_erase_ne hne], htarget⟩

theorem AllMapped.erase (h : AllMapped s) (address : Bytes) (reversemap : Strmap Vent) :
    AllMapped ⟨s.addressmap.erase address, reversemap⟩ := by
  intro other ent hent
  by_cases heq : other = address
  · subst heq
    simp at hent
  · rw [AList.lookup_erase_ne heq] at hent
    exact h other ent hent

end Removal

/-- The whole invariant. -/
structure Inv (env : Env) (s : State) : Prop where
  consistent : Consistent env s
  allMapped : AllMapped s

/-! ### Clearing -/

/-- What is chosen for removal can be taken away. -/
def VisitOk (env : Env) (addressFreed : Bool) (choose : Bytes → AddressmapEntry → Option Bool)
    (s : State) (address : Bytes) : Prop :=
  ∀ ent, s.addressmap.lookup address = some ent → choose address ent = some true →
    Unlinks env s.virtaddressReversemap address addressFreed ent

/-- The order is one of the map, and each entry that the loop removes can be taken away. -/
def LoopOk (env : Env) (addressFreed : Bool) (choose : Bytes → AddressmapEntry → Option Bool)
    (order : Order) (s : State) : Prop :=
  order.Perm s.addressmap.keys ∧
    Guarded (visit env addressFreed choose) (VisitOk env addressFreed choose) s order

section Clearing
variable {env : Env} {s : State} {addressFreed : Bool} {order : Order}
  {choose : Bytes → AddressmapEntry → Option Bool}

/-- Entries with an address can be chosen or not. -/
def Decides (choose : Bytes → AddressmapEntry → Option Bool) : Prop :=
  ∀ address ent, ent.newAddress.isSome → (choose address ent).isSome

theorem visit_spec {address : Bytes} (h : Inv env s) (hdecides : Decides choose)
    (hmem : address ∈ s.addressmap) (hok : VisitOk env addressFreed choose s address) :
    ∃ s', visit env addressFreed choose s address = some s' ∧ Inv env s' ∧
      ∀ other, other ≠ address → other ∈ s.addressmap → other ∈ s'.addressmap := by
  obtain ⟨ent, hent⟩ := Option.isSome_iff_exists.mp (AList.lookup_isSome.mpr hmem)
  obtain ⟨chosen, hchosen⟩ := Option.isSome_iff_exists.mp
    (hdecides address ent (h.allMapped address ent hent))
  simp only [visit, hent, hchosen]
  cases chosen with
  | false => exact ⟨s, rfl, h, fun _ _ hother => hother⟩
  | true =>
    obtain ⟨s', hs', hconsistent, hmap⟩ := entRemove_spec h.consistent hent (hok ent hent hchosen)
    refine ⟨s', hs', ⟨hconsistent, ?_⟩, ?_⟩
    · have herase := h.allMapped.erase address s'.virtaddressReversemap
      rwa [← hmap] at herase
    · intro other hne hother
      rw [hmap]
      exact AList.mem_erase.mpr ⟨hne, hother⟩

theorem run_visit_spec (h : Inv env s) (hdecides : Decides choose) (hnodup : order.Nodup)
    (hmem : ∀ address ∈ order, address ∈ s.addressmap)
    (hok : Guarded (visit env addressFreed choose) (VisitOk env addressFreed choose) s order) :
    ∃ s', run (visit env addressFreed choose) s order = some s' ∧ Inv env s' := by
  induction order generalizing s with
  | nil => exact ⟨s, rfl, h⟩
  | cons address order ih =>
    obtain ⟨hnot, hnodup⟩ := List.nodup_cons.mp hnodup
    obtain ⟨s₁, hs₁, hinv, hkept⟩ := visit_spec h hdecides (hmem address (List.mem_cons_self ..)) hok.1
    have hmem' : ∀ other ∈ order, other ∈ s₁.addressmap := by
      intro other hother
      apply hkept other _ (hmem other (List.mem_cons_of_mem _ hother))
      rintro rfl
      exact hnot hother
    obtain ⟨s', hs', hinv'⟩ := ih hinv hnodup hmem' (hok.2 s₁ hs₁)
    exact ⟨s', by rw [run, hs₁]; exact hs', hinv'⟩

theorem forEachModify_spec (h : Inv env s) (hdecides : Decides choose)
    (hok : LoopOk env addressFreed choose order s) :
    ∃ s', forEachModify env addressFreed choose order s = some s' ∧ Inv env s' := by
  obtain ⟨hperm, hguard⟩ := hok
  rw [forEachModify, if_pos (List.isPerm_iff.mpr hperm)]
  apply run_visit_spec h hdecides (hperm.nodup_iff.mpr s.addressmap.keys_nodup) _ hguard
  intro address haddress
  exact AList.mem_keys.mpr (hperm.mem_iff.mp haddress)

theorem isTrackexitTo_decides (exitname : Bytes) : Decides (isTrackexitTo exitname) := by
  intro address ent hent
  unfold isTrackexitTo
  split
  · simpa using hent
  · rfl

theorem isInvalidAutomap_decides (options : AutomapOptions) :
    Decides (isInvalidAutomap env options) := by
  intro address ent hent
  unfold isInvalidAutomap
  dsimp only
  split_ifs
  · rfl
  · simpa using hent
  · rfl

theorem expiresWithin_decides (minExpires maxExpires : ℤ) :
    Decides (expiresWithin minExpires maxExpires) := fun _ _ _ => rfl

end Clearing

end TorDaemon.Client.Addressmap
