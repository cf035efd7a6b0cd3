import TorDaemon.Nodelist.NodefamilyCanonical

/-! Runs of calls for families. Every family is in order, is shared by the calls of its canonical
members, and has the references counted that are held. The counts have no room for the modulus. -/
namespace TorDaemon.Nodelist
open Library Library.NetworkOrder Library.Sorting SharedRandom
open Keypin (Digest digestLen)

/-! ### Calls -/

/-- A call that asks for a family. -/
inductive Call
  | parse (s : Bytes) (rsaIdSelf : Option (Digest digestLen)) (flags : UInt32)
  | fromMembers (members : List Bytes) (rsaIdSelf : Option (Digest digestLen)) (flags : UInt32)

def Call.members : Call → List Bytes
  | parse s _ _ => splitFields s
  | fromMembers members _ _ => members

def Call.rsaIdSelf : Call → Option (Digest digestLen)
  | parse _ rsaIdSelf _ => rsaIdSelf
  | fromMembers _ rsaIdSelf _ => rsaIdSelf

def Call.flags : Call → UInt32
  | parse _ _ flags => flags
  | fromMembers _ _ flags => flags

/-- The canonical members that a call asks for. -/
def Call.canonicalSet (c : Call) : Set CanonicalMember := Nodelist.canonicalSet c.members c.rsaIdSelf

def Call.run (qsort : Qsort compareMembers) (map : NodefamilyMap) :
    Call → Option (NodefamilyMap × Option Nodefamily)
  | parse s rsaIdSelf flags => nodefamilyParse qsort map s rsaIdSelf flags
  | fromMembers members rsaIdSelf flags =>
    (nodefamilyFromMembers qsort map members rsaIdSelf flags).map fun result =>
      (result.1, result.2.1)

/-- A reference that is held, with the call that returned it. -/
structure Reference where
  call : Call
  family : Nodefamily

/-- What comes of calls, and of dropping references that are held. -/
inductive Run (qsort : Qsort compareMembers) (allowed : List Reference → Prop) :
    NodefamilyMap → List Reference → Prop
  | start : Run qsort allowed .empty []
  | call {map map' : NodefamilyMap} {live : List Reference} {family : Nodefamily}
      (h : Run qsort allowed map live) (c : Call) (hcall : c.run qsort map = some (map', some family))
      (hallowed : allowed (⟨c, family⟩ :: live)) : Run qsort allowed map' (⟨c, family⟩ :: live)
  | refused {map map' : NodefamilyMap} {live : List Reference} (h : Run qsort allowed map live)
      (c : Call) (hcall : c.run qsort map = some (map', none)) : Run qsort allowed map' live
  | free {map : NodefamilyMap} {before after : List Reference} {r : Reference}
      (h : Run qsort allowed map (before ++ r :: after)) :
      Run qsort allowed (nodefamilyFree map (some r.family)) (before ++ after)

/-- The references to an object. -/
def references (live : List Reference) (addr : ℕ) : ℕ := live.countP fun r => r.family.addr = addr

/-- The references to every object are fewer than a count has values. -/
def CountsFit (live : List Reference) : Prop := ∀ addr, references live addr < refcntModulus

/-- Families in order, shared, counted, and read back from their texts. -/
structure Canonical (qsort : Qsort compareMembers) (sortStrings : Qsort compareStrings)
    (map : NodefamilyMap) (live : List Reference) : Prop where
  returns : ∀ c : Call, arraySize c.members c.rsaIdSelf ≤ intMax →
    ∃ map' result, c.run qsort map = some (map', result) ∧
      (result = none ↔ Refused c.members c.flags)
  sorted : ∀ e ∈ map.entries, Strict e.key
  held : ∀ r ∈ live, ∃ e ∈ map.entries, e.id = r.family.addr ∧ e.key = r.family.familyMembers
  members : ∀ r ∈ live, ∀ c, c ∈ r.call.canonicalSet ↔
    ∃ m ∈ r.family.familyMembers, m.canonical = c
  shared : ∀ r ∈ live, ∀ r' ∈ live,
    r.family.addr = r'.family.addr ↔ r.call.canonicalSet = r'.call.canonicalSet
  counted : ∀ e ∈ map.entries, e.refs = references live e.id
  formatted : ∀ r ∈ live, ∀ flags, ∃ map',
    nodefamilyParse qsort map (nodefamilyFormat (some r.family)) none flags =
      some (map', some r.family)
  canonicalized : ∀ r ∈ live, ∀ s rsaIdSelf flags, r.call = .parse s rsaIdSelf flags →
    ∃ text map', nodefamilyCanonicalize qsort sortStrings map s rsaIdSelf flags = some (map, text) ∧
      nodefamilyParse qsort map text none flags = some (map', some r.family)

section Calls
variable {qsort : Qsort compareMembers} {map map' : NodefamilyMap} {c : Call} {family : Nodefamily}

theorem Call.run_eq (qsort : Qsort compareMembers) (map : NodefamilyMap) (c : Call) :
    c.run qsort map = (nodefamilyFromMembers qsort map c.members c.rsaIdSelf c.flags).map
      fun result => (result.1, result.2.1) := by
  cases c <;> rfl

theorem Call.run_refused (hsize : arraySize c.members c.rsaIdSelf ≤ intMax)
    (h : Refused c.members c.flags) : c.run qsort map = some (map, none) := by
  rw [Call.run_eq, nodefamilyFromMembers_refused hsize h, Option.map_some]

theorem Call.run_made (hsize : arraySize c.members c.rsaIdSelf ≤ intMax)
    (h : ¬Refused c.members c.flags) : c.run qsort map =
      let found := Interning.intern refcntModulus map (familyOf qsort c.members c.rsaIdSelf)
      some (found.1, some ⟨found.2, familyOf qsort c.members c.rsaIdSelf⟩) := by
  rw [Call.run_eq, nodefamilyFromMembers_made hsize h]
  rfl

theorem Call.run_fits {result : NodefamilyMap × Option Nodefamily}
    (h : c.run qsort map = some result) : arraySize c.members c.rsaIdSelf ≤ intMax := by
  rw [Call.run_eq, Option.map_eq_some_iff] at h
  obtain ⟨_, h, -⟩ := h
  exact nodefamilyFromMembers_fits h

/-- A reference to the family of its call. -/
structure Made (qsort : Qsort compareMembers) (r : Reference) : Prop where
  fits : arraySize r.call.members r.call.rsaIdSelf ≤ intMax
  accepted : ¬Refused r.call.members r.call.flags
  family : r.family.familyMembers = familyOf qsort r.call.members r.call.rsaIdSelf

theorem Call.run_some (h : c.run qsort map = some (map', some family)) :
    Made qsort ⟨c, family⟩ ∧ map' = (Interning.intern refcntModulus map family.familyMembers).1 ∧
      family.addr = (Interning.intern refcntModulus map family.familyMembers).2 := by
  have hsize := Call.run_fits h
  by_cases hrefused : Refused c.members c.flags
  · rw [Call.run_refused hsize hrefused] at h
    cases h
  · rw [Call.run_made hsize hrefused] at h
    obtain ⟨rfl, hfamily⟩ := Prod.mk.inj (Option.some.inj h)
    cases hfamily
    exact ⟨⟨hsize, hrefused, rfl⟩, rfl, rfl⟩

theorem Call.run_none (h : c.run qsort map = some (map', none)) : map' = map := by
  have hsize := Call.run_fits h
  by_cases hrefused : Refused c.members c.flags
  · rw [Call.run_refused hsize hrefused] at h
    exact (Prod.mk.inj (Option.some.inj h)).1.symm
  · rw [Call.run_made hsize hrefused] at h
    cases (Prod.mk.inj (Option.some.inj h)).2

end Calls

section Reading
variable {qsort : Qsort compareMembers} {members ws unrecognized : List Bytes}
  {rsaIdSelf : Option (Digest digestLen)} {l : List Member} {w : Bytes} {c : CanonicalMember}

theorem removeDuplicates_length (i : ℕ) (l : List Member) :
    (removeDuplicates i l).length ≤ l.length := by
  induction i, l using removeDuplicates.induct with
  | case1 i l h heq ih =>
    rw [removeDuplicates, dif_pos h, if_pos heq]
    exact ih.trans (List.eraseIdx_sublist l i).length_le
  | case2 i l h hne ih => rwa [removeDuplicates, dif_pos h, if_neg hne]
  | case3 i l h => rw [removeDuplicates, dif_neg h]

theorem unrecognized_length (members : List Bytes) :
    (members.filter isUnrecognized).length + (members.filterMap encodeMember).length =
      members.length := by
  induction members with
  | nil => rfl
  | cons cp members ih =>
    have hiff := (isUnrecognized_iff cp).trans (encodeMember_isNone cp).symm
    cases hencode : encodeMember cp with
    | none =>
      rw [List.filter_cons_of_pos (hiff.mpr hencode), List.filterMap_cons_none hencode,
        List.length_cons, List.length_cons]
      omega
    | some m =>
      have hrecognized : ¬isUnrecognized cp = true := by rw [hiff, hencode]; simp
      rw [List.filter_cons_of_neg hrecognized, List.filterMap_cons_some hencode,
        List.length_cons, List.length_cons]
      omega

/-- The family and what was not recognized take no more than the call allocated. -/
theorem familyOf_size (qsort : Qsort compareMembers) (members : List Bytes)
    (rsaIdSelf : Option (Digest digestLen)) :
    ((members.filter isUnrecognized).length + (familyOf qsort members rsaIdSelf).length) *
      nodefamilyMemberLen ≤ arraySize members rsaIdSelf := by
  refine Nat.mul_le_mul_right _ ?_
  have hfamily := removeDuplicates_length 0
    (qsort.sort (members.filterMap encodeMember ++ (rsaIdSelf.map Member.rsaId).toList))
  rw [(qsort.perm _).length_eq, List.length_append] at hfamily
  have hmembers := unrecognized_length members
  rw [familyOf]
  cases rsaIdSelf with
  | none =>
    simp only [Option.map_none, Option.toList_none, List.length_nil] at hfamily
    simp only [Option.isSome_none, Bool.false_eq_true, if_false, Option.map_none, Option.toList_none]
    omega
  | some d =>
    simp only [Option.map_some, Option.toList_some, List.length_singleton] at hfamily
    simp only [Option.isSome_some, if_true, Option.map_some, Option.toList_some]
    omega

/-- The texts of a family. -/
def familyTexts (l : List Member) : List Bytes := l.filterMap formatMember

theorem familyTexts_length (l : List Member) : (familyTexts l).length ≤ l.length :=
  List.length_filterMap_le ..

theorem isField_familyTexts (hl : ∀ m ∈ l, Encoded m) (hw : w ∈ familyTexts l) : IsField w := by
  obtain ⟨m, hm, hformat⟩ := List.mem_filterMap.mp hw
  obtain ⟨text, htext, hfield, -⟩ := formatMember_encoded (hl m hm)
  rw [hformat, Option.some.injEq] at htext
  exact htext ▸ hfield

theorem splitFields_format {family : Nodefamily} (h : ∀ m ∈ family.familyMembers, Encoded m) :
    splitFields (nodefamilyFormat (some family)) = familyTexts family.familyMembers :=
  splitFields_joined fun _ => isField_familyTexts h

theorem mem_canonicalSet_texts (hws : ws.Perm (unrecognized ++ familyTexts l))
    (hunrecognized : ∀ w ∈ unrecognized, canonicalMember w = none) (hl : ∀ m ∈ l, Encoded m) :
    c ∈ canonicalSet ws none ↔ ∃ m ∈ l, m.canonical = c := by
  have hmem (w : Bytes) : w ∈ ws ↔ w ∈ unrecognized ∨ w ∈ familyTexts l := by
    rw [hws.mem_iff, List.mem_append]
  constructor
  · rintro (⟨w, hw, hc⟩ | ⟨d, hd, -⟩)
    · rcases (hmem w).mp hw with hw | hw
      · rw [hunrecognized w hw] at hc
        cases hc
      · obtain ⟨m, hm, hformat⟩ := List.mem_filterMap.mp hw
        obtain ⟨text, htext, -, hcanonical⟩ := formatMember_encoded (hl m hm)
        rw [hformat, Option.some.injEq] at htext
        rw [← htext, hc, Option.some.injEq] at hcanonical
        exact ⟨m, hm, hcanonical.symm⟩
    · cases hd
  · rintro ⟨m, hm, rfl⟩
    obtain ⟨text, htext, -, hcanonical⟩ := formatMember_encoded (hl m hm)
    exact .inl ⟨text, (hmem text).mpr (.inr (List.mem_filterMap.mpr ⟨m, hm, htext⟩)), hcanonical⟩

theorem familyTexts_recognized (hl : ∀ m ∈ l, Encoded m) (hw : w ∈ familyTexts l) :
    canonicalMember w ≠ none := by
  obtain ⟨m, hm, hformat⟩ := List.mem_filterMap.mp hw
  obtain ⟨text, htext, -, hcanonical⟩ := formatMember_encoded (hl m hm)
  rw [hformat, Option.some.injEq] at htext
  rw [htext, hcanonical]
  simp

theorem familyOf_texts (qsort : Qsort compareMembers) (members : List Bytes)
    (rsaIdSelf : Option (Digest digestLen))
    (hws : ws.Perm (unrecognized ++ familyTexts (familyOf qsort members rsaIdSelf)))
    (hunrecognized : ∀ w ∈ unrecognized, w ∈ members.filter isUnrecognized) :
    familyOf qsort ws none = familyOf qsort members rsaIdSelf ∧
      ∀ flags, Refused ws flags → Refused members flags := by
  have hnone (w : Bytes) (hw : w ∈ unrecognized) : w ∈ members ∧ canonicalMember w = none := by
    obtain ⟨hmem, hw⟩ := List.mem_filter.mp (hunrecognized w hw)
    exact ⟨hmem, (isUnrecognized_iff w).mp hw⟩
  constructor
  · rw [familyOf_eq_iff]
    ext c
    rw [mem_canonicalSet_texts hws (fun w hw => (hnone w hw).2) fun _ => familyOf_encoded,
      mem_canonicalSet qsort]
  · rintro flags ⟨hflags, w, hw, hcanonical⟩
    rcases List.mem_append.mp (hws.mem_iff.mp hw) with hw | hw
    · exact ⟨hflags, w, (hnone w hw).1, hcanonical⟩
    · exact absurd hcanonical (familyTexts_recognized (fun _ => familyOf_encoded) hw)

end Reading

section Runs
variable {qsort : Qsort compareMembers} {allowed : List Reference → Prop} {map : NodefamilyMap}
  {live : List Reference} {r : Reference}

/-- A reference as the pool knows it. -/
def Reference.asked (r : Reference) : ℕ × List Member := (r.family.addr, r.family.familyMembers)

theorem refCount_asked (live : List Reference) (addr : ℕ) :
    Interning.refCount (live.map Reference.asked) addr = references live addr := by
  rw [Interning.refCount, List.countP_map]
  rfl

theorem Run.made (h : Run qsort allowed map live) : ∀ r ∈ live, Made qsort r := by
  induction h with
  | start => simp
  | call _ c hcall _ ih =>
    intro r hr
    rcases List.mem_cons.mp hr with rfl | hr
    · exact (Call.run_some hcall).1
    · exact ih r hr
  | refused _ _ _ ih => exact ih
  | @free _ before after r' _ ih =>
    intro r hr
    refine ih r ?_
    rw [List.mem_append, List.mem_cons]
    exact (List.mem_append.mp hr).imp_right .inr

theorem Run.interning (h : Run qsort CountsFit map live) :
    Interning.Run refcntModulus map (live.map Reference.asked) := by
  induction h with
  | start => exact .empty
  | @call map map' live family _ c hcall hallowed ih =>
    obtain ⟨-, rfl, haddr⟩ := Call.run_some hcall
    have hfits := hallowed family.addr
    rw [references, List.countP_cons_of_pos (by simp), ← references, ← refCount_asked] at hfits
    rw [haddr] at hfits
    have hnext := Interning.Run.intern ih family.familyMembers hfits
    rwa [← haddr] at hnext
  | refused _ c hcall ih => rwa [Call.run_none hcall]
  | @free map before after r _ ih =>
    rw [List.map_append, List.map_cons] at ih
    rw [List.map_append]
    exact Interning.Run.release ih

end Runs

section Again
variable {qsort : Qsort compareMembers} {sortStrings : Qsort compareStrings} {map : NodefamilyMap}
  {held : List (ℕ × List Member)} {family : Nodefamily} {members : List Bytes} {s : Bytes}
  {rsaIdSelf : Option (Digest digestLen)} {flags : UInt32}

theorem fromMembers_again (h : Interning.Shared refcntModulus map held)
    (hheld : (family.addr, family.familyMembers) ∈ held)
    (hfamily : family.familyMembers = familyOf qsort members rsaIdSelf)
    (hsize : arraySize members rsaIdSelf ≤ intMax) (haccepted : ¬Refused members flags) :
    nodefamilyFromMembers qsort map members rsaIdSelf flags =
      some ((Interning.intern refcntModulus map family.familyMembers).1, some family,
        members.filter isUnrecognized) := by
  have haddr : (Interning.intern refcntModulus map family.familyMembers).2 = family.addr :=
    h.intern_held hheld
  rw [nodefamilyFromMembers_made hsize haccepted, ← hfamily]
  dsimp only
  rw [haddr]

theorem encoded_of (hfamily : family.familyMembers = familyOf qsort members rsaIdSelf) :
    ∀ m ∈ family.familyMembers, Encoded m := by
  rw [hfamily]
  exact fun _ => familyOf_encoded

theorem format_again (h : Interning.Shared refcntModulus map held)
    (hheld : (family.addr, family.familyMembers) ∈ held)
    (hfamily : family.familyMembers = familyOf qsort members rsaIdSelf)
    (hsize : arraySize members rsaIdSelf ≤ intMax) (flags : UInt32) :
    ∃ map', nodefamilyParse qsort map (nodefamilyFormat (some family)) none flags =
      some (map', some family) := by
  have hencoded := encoded_of hfamily
  have hperm : (familyTexts (familyOf qsort members rsaIdSelf)).Perm
      ([] ++ familyTexts (familyOf qsort members rsaIdSelf)) := .refl _
  have hsame := (familyOf_texts qsort members rsaIdSelf hperm (by simp)).1
  rw [← hfamily] at hsame
  have hrefused : ¬Refused (familyTexts family.familyMembers) flags := by
    rintro ⟨-, w, hw, hnone⟩
    exact familyTexts_recognized hencoded hw hnone
  have hlength : arraySize (familyTexts family.familyMembers) none ≤ intMax := by
    refine le_trans (Nat.mul_le_mul_right _ ?_) ((familyOf_size qsort members rsaIdSelf).trans hsize)
    rw [← hfamily]
    exact (familyTexts_length _).trans (Nat.le_add_left _ _)
  rw [nodefamilyParse, splitFields_format hencoded,
    fromMembers_again h hheld hsame.symm hlength hrefused]
  exact ⟨_, rfl⟩

theorem canonicalize_again (h : Interning.Shared refcntModulus map held)
    (hheld : (family.addr, family.familyMembers) ∈ held)
    (hfamily : family.familyMembers = familyOf qsort (splitFields s) rsaIdSelf)
    (hsize : arraySize (splitFields s) rsaIdSelf ≤ intMax)
    (haccepted : ¬Refused (splitFields s) flags) : ∃ text map',
      nodefamilyCanonicalize qsort sortStrings map s rsaIdSelf flags = some (map, text) ∧
        nodefamilyParse qsort map text none flags = some (map', some family) := by
  obtain ⟨e, he, hid, hkey⟩ := h.found _ hheld
  have hencoded := encoded_of hfamily
  have hback : nodefamilyFree (Interning.intern refcntModulus map family.familyMembers).1
      (some family) = map := by
    have hrelease := h.release_intern he
    rwa [hkey, hid] at hrelease
  have hrun := fromMembers_again h hheld hfamily hsize haccepted
  let fields := sortStrings.sort
    ((splitFields s).filter isUnrecognized ++ familyTexts family.familyMembers)
  have hperm : fields.Perm ((splitFields s).filter isUnrecognized ++
      familyTexts family.familyMembers) := sortStrings.perm _
  have hfields : ∀ w ∈ fields, IsField w := by
    intro w hw
    rcases List.mem_append.mp (hperm.mem_iff.mp hw) with hw | hw
    · exact isField_of_mem (List.mem_filter.mp hw).1
    · exact isField_familyTexts hencoded hw
  have hlength : arraySize fields none ≤ intMax := by
    refine le_trans (Nat.mul_le_mul_right _ ?_) ((familyOf_size qsort _ rsaIdSelf).trans hsize)
    rw [hperm.length_eq, List.length_append, ← hfamily]
    exact Nat.add_le_add_left (familyTexts_length _) _
  rw [hfamily] at hperm
  obtain ⟨hsame, hrefused⟩ := familyOf_texts qsort (splitFields s) rsaIdSelf hperm fun _ hw => hw
  refine ⟨Scanner.joined 32 fields, (Interning.intern refcntModulus map family.familyMembers).1,
    ?_, ?_⟩
  · rw [nodefamilyCanonicalize, hrun, Option.map_some]
    dsimp only
    rw [hback, splitFields_format hencoded]
  · rw [nodefamilyParse, splitFields_joined hfields, fromMembers_again h hheld
      (hfamily.trans hsame.symm) hlength fun hno => haccepted (hrefused flags hno)]
    rfl

end Again

/-- In every run whose counts fit, families are in order, shared, counted and read back. -/
theorem nodefamily_canonical {qsort : Qsort compareMembers} (sortStrings : Qsort compareStrings)
    {map : NodefamilyMap} {live : List Reference} (h : Run qsort CountsFit map live) :
    Canonical qsort sortStrings map live := by
  have hmade := h.made
  have hshared := h.interning.shared
  have hmem {r : Reference} (hr : r ∈ live) : r.asked ∈ live.map Reference.asked :=
    List.mem_map_of_mem hr
  refine ⟨?returns, ?sorted, ?held, ?members, ?shared, ?counted, ?formatted, ?canonicalized⟩
  case returns =>
    intro c hsize
    by_cases hrefused : Refused c.members c.flags
    · exact ⟨_, _, Call.run_refused hsize hrefused, by simp [hrefused]⟩
    · exact ⟨_, _, Call.run_made hsize hrefused, by simp [hrefused]⟩
  case sorted =>
    intro e he
    obtain ⟨_, hheld, -, hkey⟩ := hshared.held_of_mem he
    obtain ⟨r, hr, rfl⟩ := List.mem_map.mp hheld
    rw [← hkey, Reference.asked, (hmade r hr).family]
    exact strict_familyOf ..
  case held =>
    intro r hr
    exact hshared.found r.asked (hmem hr)
  case members =>
    intro r hr c
    rw [(hmade r hr).family]
    exact mem_canonicalSet qsort
  case shared =>
    intro r hr r' hr'
    have hsame := hshared.same_iff (hmem hr) (hmem hr')
    rw [Reference.asked, Reference.asked, (hmade r hr).family, (hmade r' hr').family,
      familyOf_eq_iff] at hsame
    exact hsame
  case counted =>
    intro e he
    rw [hshared.counts e he, refCount_asked]
  case formatted =>
    intro r hr flags
    exact format_again hshared (hmem hr) (hmade r hr).family (hmade r hr).fits flags
  case canonicalized =>
    intro r hr s rsaIdSelf flags hcall
    obtain ⟨hfits, haccepted, hfamily⟩ := hmade r hr
    rw [hcall] at hfits haccepted hfamily
    exact canonicalize_again hshared (hmem hr) hfamily hfits haccepted

theorem countsFit_of_length {live : List Reference} (h : live.length < refcntModulus) :
    CountsFit live := fun _ => (List.countP_le_length).trans_lt h

instance : Std.TransCmp compareStrings where
  eq_swap := Std.OrientedOrd.eq_swap
  isLE_trans := Std.TransOrd.isLE_trans

theorem not_refused {members : List Bytes} : ¬Refused members 0 := fun h => h.1 (by decide)

/-- Two calls for a nickname, in letters of either case. -/
theorem nodefamily_canonical_twice : ∃ map live, live.length = 2 ∧
    Canonical (stableQsort compareMembers) (stableQsort compareStrings) map live := by
  have hfirst : Run (stableQsort compareMembers) CountsFit _ _ :=
    .call .start (.fromMembers [[65]] none 0) (Call.run_made (by decide) not_refused)
      (countsFit_of_length (by simp [refcntModulus]))
  have hsecond := Run.call hfirst (.fromMembers [[97]] none 0)
    (Call.run_made (by decide) not_refused) (countsFit_of_length (by simp [refcntModulus]))
  exact ⟨_, _, rfl, nodefamily_canonical (stableQsort compareStrings) hsecond⟩

section Overflow
variable {qsort : Qsort compareMembers}

/-- A call for the family of no members. -/
def emptyCall : Call := .parse [] none 0

theorem emptyCall_run (map : NodefamilyMap) : emptyCall.run qsort map =
    some ((Interning.intern refcntModulus map []).1,
      some ⟨(Interning.intern refcntModulus map []).2, []⟩) := by
  have hsplit : splitFields [] = [] := by
    rw [splitFields]
    rfl
  have hsort : qsort.sort [] = [] := (qsort.perm []).eq_nil
  have hfamily : familyOf qsort (splitFields []) none = [] := by
    rw [hsplit, familyOf]
    change removeDuplicates 0 (qsort.sort []) = []
    rw [hsort, removeDuplicates]
    rfl
  have hsize : arraySize (splitFields []) none ≤ intMax := by
    rw [hsplit]
    decide
  have hrun : emptyCall.run qsort map = some ((Interning.intern refcntModulus map
      (familyOf qsort (splitFields []) none)).1, some ⟨(Interning.intern refcntModulus map
        (familyOf qsort (splitFields []) none)).2, familyOf qsort (splitFields []) none⟩) :=
    Call.run_made hsize not_refused
  rwa [hfamily] at hrun

/-- So many calls for one family leave so much of their number in its count. -/
theorem emptyCall_runs (qsort : Qsort compareMembers) (n : ℕ) : ∃ map live,
    Run qsort (fun _ => True) map live ∧
      map.entries = [⟨0, [], (n + 1) % refcntModulus⟩] ∧ references live 0 = n + 1 := by
  induction n with
  | zero =>
    have hrun : Run qsort (fun _ => True) _ _ := .call .start emptyCall (emptyCall_run .empty) trivial
    exact ⟨_, _, hrun, rfl, rfl⟩
  | succ n ih =>
    obtain ⟨map, live, h, hentries, hlive⟩ := ih
    have hfind : map.find [] = some ⟨0, [], (n + 1) % refcntModulus⟩ := by
      rw [Interning.Pool.find, hentries]
      rfl
    have hintern : Interning.intern refcntModulus map [] = _ := Interning.intern_found hfind
    have hrun := Run.call h emptyCall (emptyCall_run map) trivial
    rw [hintern] at hrun
    refine ⟨_, _, hrun, ?_, ?_⟩
    · simp [Interning.Pool.setRefs, hentries]
    · rw [references, List.countP_cons_of_pos (by simp), ← references, hlive]

end Overflow

/-- As many references as a count has values leave none counted. -/
theorem nodefamily_overflow : ∃ map live,
    Run (stableQsort compareMembers) (fun _ => True) map live ∧
      ¬Canonical (stableQsort compareMembers) (stableQsort compareStrings) map live := by
  obtain ⟨map, live, h, hentries, hlive⟩ :=
    emptyCall_runs (stableQsort compareMembers) (refcntModulus - 1)
  refine ⟨map, live, h, fun hcanonical => ?_⟩
  have hcounted := hcanonical.counted ⟨0, [], (refcntModulus - 1 + 1) % refcntModulus⟩
    (by rw [hentries]; exact List.mem_singleton_self _)
  rw [hlive] at hcounted
  simp [refcntModulus] at hcounted

end TorDaemon.Nodelist
