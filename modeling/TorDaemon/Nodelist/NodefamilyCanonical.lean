import TorDaemon.Nodelist.Nodefamily

/-! What the members of a family stand for. The members are in an order of their own, each once, so
that a set of canonical members has one family; and the text of a family is read back as it. -/
namespace TorDaemon.Nodelist
open Library Library.NetworkOrder Library.Sorting SharedRandom
open Keypin (Digest digestLen)

section Members
variable {cp name : Bytes} {m m' : Member} {d : Digest digestLen}

/-- A member without its text: a nickname in small letters, or an identity. -/
inductive CanonicalMember
  | nickname (name : Bytes)
  | rsaId (digest : Bytes)

def canonicalMember (cp : Bytes) : Option CanonicalMember :=
  if isLegalNickname cp = true then some (.nickname (cp.map toLower))
  else if isLegalHexdigest cp = true then
    (base16Decode digestLen (withoutDollar cp)).map .rsaId
  else none

/-- The canonical members of a list, with the identity of the relay itself. -/
def canonicalSet (members : List Bytes) (rsaIdSelf : Option (Digest digestLen)) :
    Set CanonicalMember :=
  { c | (∃ cp ∈ members, canonicalMember cp = some c) ∨ ∃ d ∈ rsaIdSelf, c = .rsaId d.val }

def Member.canonical (m : Member) : CanonicalMember :=
  if m.val.head? = some nodefamilyByNickname then .nickname (m.val.tail.takeWhile fun c => c ≠ 0)
  else .rsaId m.val.tail

/-- The members that the strings are encoded as. -/
inductive Encoded : Member → Prop
  | nickname {cp : Bytes} (h : isLegalNickname cp = true) :
      Encoded (.nickname (cp.map toLower) (nickname_fits h))
  | rsaId (d : Digest digestLen) : Encoded (.rsaId d)

theorem nicknameChar_lower {c : UInt8} (h : isNicknameChar c = true) :
    isNicknameChar (toLower c) = true ∧ toLower (toLower c) = toLower c := by
  have hall : ∀ c : UInt8, isNicknameChar c = true →
      isNicknameChar (toLower c) = true ∧ toLower (toLower c) = toLower c := by
    decide +kernel
  exact hall c h

theorem nicknameChar_plain {c : UInt8} (h : isNicknameChar c = true) :
    c ≠ 0 ∧ c ≠ 36 ∧ isBlank c = false ∧ isSpace c = false := by
  have hall : ∀ c : UInt8, isNicknameChar c = true →
      c ≠ 0 ∧ c ≠ 36 ∧ isBlank c = false ∧ isSpace c = false := by
    decide +kernel
  exact hall c h

section
variable (h : isLegalNickname name = true)
include h

theorem legalNickname_char : ∀ c ∈ name, isNicknameChar c = true := by
  simp only [isLegalNickname, decide_eq_true_eq] at h
  exact List.all_eq_true.mp h.2.2

theorem legalNickname_ne_nil : name ≠ [] := by
  simp only [isLegalNickname, decide_eq_true_eq] at h
  exact h.1

/-- Small letters are as legal, and stay as they are. -/
theorem legalNickname_lower :
    isLegalNickname (name.map toLower) = true ∧ (name.map toLower).map toLower = name.map toLower := by
  have hchar := legalNickname_char h
  constructor
  · simp only [isLegalNickname, decide_eq_true_eq] at h ⊢
    refine ⟨fun hnil => h.1 (List.map_eq_nil_iff.mp hnil), by simpa using h.2.1, ?_⟩
    rw [List.all_eq_true]
    intro c hc
    obtain ⟨b, hb, rfl⟩ := List.mem_map.mp hc
    exact (nicknameChar_lower (hchar b hb)).1
  · rw [List.map_map]
    exact List.map_congr_left fun c hc => (nicknameChar_lower (hchar c hc)).2

end

theorem head_nickname (h : name.length < digestLen) :
    (Member.nickname name h).val.head? = some nodefamilyByNickname := rfl

theorem head_rsaId (d : Digest digestLen) :
    (Member.rsaId d).val.head? ≠ some nodefamilyByNickname := by
  simp [Member.rsaId, nodefamilyByRsaId, nodefamilyByNickname]

theorem canonical_nickname (h : name.length < digestLen) (hzero : ∀ c ∈ name, c ≠ 0) :
    (Member.nickname name h).canonical = .nickname name := by
  have htake : (name ++ List.replicate (digestLen - name.length) 0).takeWhile
      (fun c : UInt8 => c ≠ 0) = name := by
    refine (Scanner.span_append (fun c hc => by simpa using hzero c hc) fun c hc => ?_).1
    have hc := List.eq_of_mem_replicate (List.mem_of_mem_head? hc)
    simp [hc]
  exact congrArg CanonicalMember.nickname htake

theorem canonical_rsaId (d : Digest digestLen) : (Member.rsaId d).canonical = .rsaId d.val := by
  rfl

theorem Encoded.ext (h : Encoded m) (h' : Encoded m') (heq : m.canonical = m'.canonical) : m = m' := by
  have hzero {cp : Bytes} (hcp : isLegalNickname cp = true) : ∀ c ∈ cp.map toLower, c ≠ 0 :=
    fun c hc => (nicknameChar_plain (legalNickname_char (legalNickname_lower hcp).1 c hc)).1
  cases h with
  | nickname hcp =>
    rw [canonical_nickname (nickname_fits hcp) (hzero hcp)] at heq
    cases h' with
    | nickname hcp' =>
      rw [canonical_nickname (nickname_fits hcp') (hzero hcp'), CanonicalMember.nickname.injEq] at heq
      simp only [Member.nickname, heq]
    | rsaId d' => rw [canonical_rsaId] at heq; cases heq
  | rsaId d =>
    rw [canonical_rsaId] at heq
    cases h' with
    | nickname hcp' =>
      cases heq
    | rsaId d' =>
      rw [canonical_rsaId, CanonicalMember.rsaId.injEq] at heq
      rw [Subtype.ext heq]

theorem base16Decode_length {len : ℕ} {src b : Bytes} (h : base16Decode len src = some b) :
    b.length = len := by
  induction len, src using base16Decode.induct generalizing b with
  | case1 src =>
    rw [base16Decode, Option.some.injEq] at h
    rw [← h, List.length_nil]
  | case2 len a b' src ih =>
    simp only [base16Decode, Option.bind_eq_bind, Option.bind_eq_some_iff] at h
    obtain ⟨v1, -, v2, -, rest, hrest, hb⟩ := h
    rw [← Option.some.inj hb, List.length_cons, ih hrest]
  | case3 len src hsrc => simp [base16Decode] at h

theorem encodeMember_hexdigest (hname : isLegalNickname cp ≠ true)
    (hhex : isLegalHexdigest cp = true) :
    encodeMember cp = (base16Decode digestLen (withoutDollar cp)).bind fun b =>
      (ofLength digestLen b).map Member.rsaId := by
  rw [encodeMember, dif_neg hname, if_pos hhex, decode_hexdigest hhex, Option.bind_map]
  rfl

theorem encodeMember_encoded (h : encodeMember cp = some m) : Encoded m := by
  by_cases hname : isLegalNickname cp = true
  · rw [encodeMember, dif_pos hname, Option.some.injEq] at h
    exact h ▸ .nickname hname
  · by_cases hhex : isLegalHexdigest cp = true
    · rw [encodeMember_hexdigest hname hhex, Option.bind_eq_some_iff] at h
      obtain ⟨b, -, hb⟩ := h
      obtain ⟨d, -, rfl⟩ := Option.map_eq_some_iff.mp hb
      exact .rsaId d
    · rw [encodeMember, dif_neg hname, if_neg hhex] at h
      cases h

theorem encodeMember_canonical (cp : Bytes) :
    (encodeMember cp).map Member.canonical = canonicalMember cp := by
  by_cases hname : isLegalNickname cp = true
  · have hlower := (legalNickname_lower hname).1
    rw [encodeMember, dif_pos hname, canonicalMember, if_pos hname, Option.map_some,
      canonical_nickname (nickname_fits hname)]
    exact fun c hc => (nicknameChar_plain (legalNickname_char hlower c hc)).1
  · by_cases hhex : isLegalHexdigest cp = true
    · rw [encodeMember_hexdigest hname hhex, canonicalMember, if_neg hname, if_pos hhex]
      cases hdecode : base16Decode digestLen (withoutDollar cp) with
      | none => rfl
      | some b =>
        rw [Option.bind_some, ofLength_of (base16Decode_length hdecode), Option.map_some,
          Option.map_some, Option.map_some, canonical_rsaId]
    · rw [encodeMember, dif_neg hname, if_neg hhex, canonicalMember, if_neg hname, if_neg hhex]
      rfl

theorem encodeMember_isNone (cp : Bytes) : encodeMember cp = none ↔ canonicalMember cp = none := by
  rw [← encodeMember_canonical, Option.map_eq_none_iff]

end Members

section Loops
variable {l l' : List Member}

/-- The member strings neither as a nickname nor as an identity. -/
def isUnrecognized (cp : Bytes) : Bool := !isLegalNickname cp && !isLegalHexdigest cp

theorem fillMember_eq (tmp : Filled) (cp : Bytes) : fillMember tmp cp =
      ⟨tmp.familyMembers ++ (encodeMember cp).toList,
        tmp.nBadElements + if encodeMember cp = none then 1 else 0,
        tmp.unrecognizedOut ++ if isUnrecognized cp = true then [cp] else []⟩ := by
  cases hencode : encodeMember cp with
  | some member =>
    have hlegal : isUnrecognized cp = false := by
      by_contra hnone
      rw [Bool.not_eq_false, isUnrecognized, Bool.and_eq_true, Bool.not_eq_true',
        Bool.not_eq_true'] at hnone
      simp [encodeMember, hnone.1, hnone.2] at hencode
    simp [fillMember, hencode, hlegal]
  | none =>
    have hname : isLegalNickname cp = false := by
      by_contra hname
      rw [Bool.not_eq_false] at hname
      simp [encodeMember, hname] at hencode
    by_cases hhex : isLegalHexdigest cp = true <;>
      simp [fillMember, hencode, isUnrecognized, hname, hhex]

/-- What the whole loop comes to. -/
theorem foldl_fillMember (members : List Bytes) (tmp : Filled) : members.foldl fillMember tmp =
      ⟨tmp.familyMembers ++ members.filterMap encodeMember,
        tmp.nBadElements + members.countP fun cp => encodeMember cp = none,
        tmp.unrecognizedOut ++ members.filter isUnrecognized⟩ := by
  induction members generalizing tmp with
  | nil => simp
  | cons cp members ih =>
    rw [List.foldl_cons, ih, fillMember_eq]
    cases hencode : encodeMember cp <;> cases hlegal : isUnrecognized cp <;>
      simp [hencode, hlegal] <;> omega

theorem compareMembers_eq {a b : Member} (h : compareMembers a b = .eq) : a = b :=
  Subtype.ext (Std.LawfulEqOrd.eq_of_compare h)

/-- A family is in order, each member once. -/
def Strict (l : List Member) : Prop := l.Pairwise fun a b => compareMembers a b = .lt

theorem Strict.nodup (h : Strict l) : l.Nodup := by
  refine h.imp fun {a b} hlt heq => ?_
  have hself : compareMembers b b = .eq := Std.ReflCmp.compare_self
  rw [heq, hself] at hlt
  cases hlt

/-- A set of members has one family. -/
theorem Strict.eq (h : Strict l) (h' : Strict l') (hmem : ∀ m, m ∈ l ↔ m ∈ l') : l = l' := by
  have hle {a b : Member} (hlt : compareMembers a b = .lt) : (compareMembers a b).isLE := by
    rw [hlt]
    rfl
  have hperm := (List.perm_ext_iff_of_nodup h.nodup h'.nodup).mpr hmem
  exact sorted_unique (h.imp hle) (h'.imp hle) hperm fun a _ b _ => compareMembers_eq

theorem mem_removeDuplicates {m : Member} (i : ℕ) (l : List Member) : m ∈ removeDuplicates i l ↔ m ∈ l := by
  induction i, l using removeDuplicates.induct with
  | case1 i l h heq ih =>
    rw [removeDuplicates, dif_pos h, if_pos heq, ih, List.mem_eraseIdx_iff_getElem]
    constructor
    · rintro ⟨j, hj, -, rfl⟩
      exact List.getElem_mem hj
    · intro hm
      obtain ⟨j, hj, rfl⟩ := List.getElem_of_mem hm
      by_cases hji : j = i
      · subst hji
        exact ⟨j + 1, h, Nat.succ_ne_self j, heq.symm⟩
      · exact ⟨j, hj, hji, rfl⟩
  | case2 i l h hne ih => rw [removeDuplicates, dif_pos h, if_neg hne, ih]
  | case3 i l h => rw [removeDuplicates, dif_neg h]

/-- The members up to the index stay apart, and those behind it are in order. -/
theorem strict_removeDuplicates (i : ℕ) (l : List Member)
    (h : l.Pairwise fun a b => (compareMembers a b).isLE)
    (hbefore : ∀ j (hj : j + 1 < l.length), j < i → l[j] ≠ l[j + 1]) :
    Strict (removeDuplicates i l) := by
  induction i, l using removeDuplicates.induct with
  | case1 i l hlt heq ih =>
    rw [removeDuplicates, dif_pos hlt, if_pos heq]
    refine ih (h.sublist (List.eraseIdx_sublist l i)) fun j hj hji => ?_
    have hbefore := hbefore j (by omega) hji
    rw [List.getElem_eraseIdx_of_lt (Nat.lt_of_succ_lt hj) hji]
    rcases Nat.lt_or_eq_of_le (Nat.succ_le_of_lt hji) with hnext | rfl
    · rwa [List.getElem_eraseIdx_of_lt hj hnext]
    · rw [List.getElem_eraseIdx_of_ge hj le_rfl, ← heq]
      exact hbefore
  | case2 i l hlt hne ih =>
    rw [removeDuplicates, dif_pos hlt, if_neg hne]
    refine ih h fun j hj hji => ?_
    rcases Nat.lt_succ_iff_lt_or_eq.mp hji with hji | rfl
    · exact hbefore j hj hji
    · exact hne
  | case3 i l hlt =>
    rw [removeDuplicates, dif_neg hlt]
    have htrans : Trans (fun a b => compareMembers a b = .lt) (fun a b => compareMembers a b = .lt)
        fun a b => compareMembers a b = .lt := ⟨Std.TransCmp.lt_trans⟩
    refine List.isChain_iff_pairwise.mp (List.isChain_iff_getElem.mpr fun j hj => ?_)
    have hle := List.pairwise_iff_getElem.mp h j (j + 1) (by omega) hj (Nat.lt_succ_self j)
    have hne := hbefore j hj (by omega)
    cases hcmp : compareMembers l[j] l[j + 1] with
    | lt => rfl
    | eq => exact absurd (compareMembers_eq hcmp) hne
    | gt => rw [hcmp] at hle; cases hle

end Loops

section Families
variable {qsort : Qsort compareMembers} {members members' : List Bytes}
  {rsaIdSelf rsaIdSelf' : Option (Digest digestLen)} {m : Member} {map : NodefamilyMap}
  {flags : UInt32}

/-- The family of a list of member strings. -/
def familyOf (qsort : Qsort compareMembers) (members : List Bytes)
    (rsaIdSelf : Option (Digest digestLen)) : List Member :=
  removeDuplicates 0
    (qsort.sort (members.filterMap encodeMember ++ (rsaIdSelf.map Member.rsaId).toList))

theorem mem_familyOf : m ∈ familyOf qsort members rsaIdSelf ↔
    (∃ cp ∈ members, encodeMember cp = some m) ∨ ∃ d ∈ rsaIdSelf, Member.rsaId d = m := by
  rw [familyOf, mem_removeDuplicates, (qsort.perm _).mem_iff, List.mem_append, List.mem_filterMap,
    Option.mem_toList, Option.map_eq_some_iff]
  rfl

theorem strict_familyOf (qsort : Qsort compareMembers) (members : List Bytes)
    (rsaIdSelf : Option (Digest digestLen)) : Strict (familyOf qsort members rsaIdSelf) :=
  strict_removeDuplicates 0 _ (qsort.sorted _) fun j _ hj => absurd hj (Nat.not_lt_zero j)

theorem familyOf_encoded (h : m ∈ familyOf qsort members rsaIdSelf) : Encoded m := by
  rcases mem_familyOf.mp h with ⟨cp, -, hcp⟩ | ⟨d, -, rfl⟩
  · exact encodeMember_encoded hcp
  · exact .rsaId d

theorem mem_canonicalSet (qsort : Qsort compareMembers) {c : CanonicalMember} :
    c ∈ canonicalSet members rsaIdSelf ↔
      ∃ m ∈ familyOf qsort members rsaIdSelf, m.canonical = c := by
  constructor
  · rintro (⟨cp, hcp, hc⟩ | ⟨d, hd, rfl⟩)
    · rw [← encodeMember_canonical] at hc
      obtain ⟨m, hm, rfl⟩ := Option.map_eq_some_iff.mp hc
      exact ⟨m, mem_familyOf.mpr (.inl ⟨cp, hcp, hm⟩), rfl⟩
    · exact ⟨.rsaId d, mem_familyOf.mpr (.inr ⟨d, hd, rfl⟩), canonical_rsaId d⟩
  · rintro ⟨m, hm, rfl⟩
    rcases mem_familyOf.mp hm with ⟨cp, hcp, hencode⟩ | ⟨d, hd, rfl⟩
    · refine .inl ⟨cp, hcp, ?_⟩
      rw [← encodeMember_canonical, hencode]
      rfl
    · exact .inr ⟨d, hd, canonical_rsaId d⟩

theorem familyOf_subset (h : canonicalSet members rsaIdSelf = canonicalSet members' rsaIdSelf')
    (hm : m ∈ familyOf qsort members rsaIdSelf) : m ∈ familyOf qsort members' rsaIdSelf' := by
  have hset : m.canonical ∈ canonicalSet members' rsaIdSelf' := by
    rw [← h]
    exact (mem_canonicalSet qsort).mpr ⟨m, hm, rfl⟩
  obtain ⟨m', hm', heq⟩ := (mem_canonicalSet qsort).mp hset
  rwa [(familyOf_encoded hm).ext (familyOf_encoded hm') heq.symm]

theorem familyOf_eq_iff : familyOf qsort members rsaIdSelf = familyOf qsort members' rsaIdSelf' ↔
      canonicalSet members rsaIdSelf = canonicalSet members' rsaIdSelf' := by
  constructor
  · intro h
    ext c
    rw [mem_canonicalSet qsort, mem_canonicalSet qsort, h]
  · intro h
    exact (strict_familyOf ..).eq (strict_familyOf ..) fun m =>
      ⟨familyOf_subset h, familyOf_subset h.symm⟩

/-- The size of the array that a call allocates first. -/
def arraySize (members : List Bytes) (rsaIdSelf : Option (Digest digestLen)) : ℕ :=
  (members.length + if rsaIdSelf.isSome then 1 else 0) * nodefamilyMemberLen

/-- A call is refused for a member that is not recognized. -/
def Refused (members : List Bytes) (flags : UInt32) : Prop :=
  flags &&& nfRejectMalformed ≠ 0 ∧ ∃ cp ∈ members, canonicalMember cp = none

theorem nodefamilyFromMembers_refused
    (hsize : arraySize members rsaIdSelf ≤ intMax) (h : Refused members flags) :
    nodefamilyFromMembers qsort map members rsaIdSelf flags =
      some (map, none, members.filter isUnrecognized) := by
  obtain ⟨hflags, cp, hcp, hnone⟩ := h
  have hbad : members.countP (fun cp => encodeMember cp = none) ≠ 0 := by
    rw [Ne, List.countP_eq_zero]
    intro hall
    have hencode := (encodeMember_isNone cp).mpr hnone
    simpa [hencode] using hall cp hcp
  rw [nodefamilyFromMembers, foldl_fillMember]
  dsimp only
  rw [arraySize] at hsize
  rw [if_neg (Nat.not_lt.mpr hsize), if_pos ⟨by rwa [Nat.zero_add], hflags⟩, List.nil_append]

theorem nodefamilyFromMembers_made
    (hsize : arraySize members rsaIdSelf ≤ intMax) (h : ¬Refused members flags) :
    nodefamilyFromMembers qsort map members rsaIdSelf flags =
      let found := Interning.intern refcntModulus map (familyOf qsort members rsaIdSelf)
      some (found.1, some ⟨found.2, familyOf qsort members rsaIdSelf⟩,
        members.filter isUnrecognized) := by
  have hcond : ¬(0 + members.countP (fun cp => encodeMember cp = none) ≠ 0 ∧
      flags &&& nfRejectMalformed ≠ 0) := by
    rintro ⟨hbad, hflags⟩
    rw [Nat.zero_add, Ne, List.countP_eq_zero] at hbad
    refine hbad fun cp hcp hnone => h ⟨hflags, cp, hcp, ?_⟩
    rwa [decide_eq_true_eq, encodeMember_isNone] at hnone
  rw [nodefamilyFromMembers, foldl_fillMember]
  rw [arraySize] at hsize
  rw [if_neg (Nat.not_lt.mpr hsize), if_neg hcond, List.nil_append, List.nil_append]
  rfl

theorem nodefamilyFromMembers_fits
    {result : NodefamilyMap × Option Nodefamily × List Bytes}
    (h : nodefamilyFromMembers qsort map members rsaIdSelf flags = some result) :
    arraySize members rsaIdSelf ≤ intMax := by
  by_contra hsize
  rw [arraySize] at hsize
  rw [nodefamilyFromMembers] at h
  rw [if_pos (Nat.not_le.mp hsize)] at h
  cases h

end Families

section Texts
variable {s w rest : Bytes} {ws : List Bytes} {cp : Bytes} {m : Member}

/-- A word that is split off. White space other than the blanks may be inside it. -/
structure IsField (w : Bytes) : Prop where
  nonempty : w ≠ []
  unblank : ∀ c ∈ w, isBlank c = false
  first : ∀ c ∈ w.head?, isSpace c = false
  last : ∀ c ∈ w.getLast?, isSpace c = false

theorem blank_space {c : UInt8} (h : isSpace c = false) : isBlank c = false := by
  have hall : ∀ c : UInt8, isSpace c = false → isBlank c = false := by decide +kernel
  exact hall c h

theorem dropWhile_head {p : UInt8 → Bool} (h : ∀ c ∈ s.head?, p c = false) : s.dropWhile p = s := by
  cases s with
  | nil => rfl
  | cons c s => rw [List.dropWhile_cons_of_neg (by simp [h c rfl])]

theorem IsField.trimmed (h : IsField w) : w.rdropWhile isSpace = w := by
  rw [List.rdropWhile, dropWhile_head, List.reverse_reverse]
  intro c hc
  rw [List.head?_reverse] at hc
  exact h.last c hc

theorem IsField.split (h : IsField w) (hrest : ∀ c ∈ rest.head?, isBlank c = true) :
    splitFields (w ++ rest) =
      w :: if rest = [] then [] else splitFields (rest.tail.dropWhile isBlank) := by
  have hhead : (w ++ rest).dropWhile isSpace = w ++ rest := by
    refine dropWhile_head fun c hc => h.first c ?_
    rwa [List.head?_append_of_ne_nil _ h.nonempty] at hc
  have hspan : (w ++ rest).takeWhile (fun c => !isBlank c) = w ∧
      (w ++ rest).dropWhile (fun c => !isBlank c) = rest :=
    Scanner.span_append (fun c hc => by simp [h.unblank c hc]) fun c hc => by simp [hrest c hc]
  rw [splitFields, hhead, hspan.1, hspan.2, h.trimmed, if_neg h.nonempty]
  split <;> rfl

theorem splitFields_joined (h : ∀ w ∈ ws, IsField w) : splitFields (Scanner.joined 32 ws) = ws := by
  induction ws with
  | nil =>
    rw [Scanner.joined, splitFields]
    rfl
  | cons w ws ih =>
    have hw := h w List.mem_cons_self
    have hws : ∀ w ∈ ws, IsField w := fun w hw => h w (List.mem_cons_of_mem _ hw)
    cases ws with
    | nil =>
      have hnone : ∀ c ∈ ([] : Bytes).head?, isBlank c = true := by simp
      have hsplit := hw.split hnone
      rwa [if_pos rfl, List.append_nil] at hsplit
    | cons w' ws =>
      have hhead : ∀ c ∈ (Scanner.joined 32 (w' :: ws)).head?, isBlank c = false := by
        intro c hc
        have hw' := hws w' List.mem_cons_self
        refine blank_space (hw'.first c ?_)
        cases ws with
        | nil => exact hc
        | cons w'' ws =>
          rw [Scanner.joined_cons (List.cons_ne_nil _ _)] at hc
          rwa [List.head?_append_of_ne_nil _ hw'.nonempty] at hc
      rw [Scanner.joined_cons (List.cons_ne_nil _ _), hw.split (by simp [isBlank]),
        if_neg (List.cons_ne_nil _ _), List.tail_cons, dropWhile_head hhead, ih hws]

theorem isField_word (s : Bytes)
    (h : ((s.dropWhile isSpace).takeWhile fun c => !isBlank c).rdropWhile isSpace ≠ []) :
    IsField (((s.dropWhile isSpace).takeWhile fun c => !isBlank c).rdropWhile isSpace) := by
  have hfield := List.rdropWhile_prefix isSpace ((s.dropWhile isSpace).takeWhile fun c => !isBlank c)
  refine ⟨h, ?_, ?_, ?_⟩
  · intro c hc
    simpa using Scanner.mem_takeWhile_pos _ _ c (hfield.subset hc)
  · intro c hc
    refine Scanner.head_dropWhile isSpace s c ?_
    obtain ⟨t, ht⟩ := hfield.trans (List.takeWhile_prefix _)
    rwa [← ht, List.head?_append_of_ne_nil _ h]
  · intro c hc
    obtain ⟨hne, rfl⟩ := List.mem_getLast?_eq_getLast hc
    simpa using List.rdropWhile_last_not isSpace _ hne

theorem isField_of_mem (h : w ∈ splitFields s) : IsField w := by
  have hword {s : Bytes} {fields : List Bytes} (hfields : fields =
      let field := ((s.dropWhile isSpace).takeWhile fun c => !isBlank c).rdropWhile isSpace
      if field = [] then [] else [field]) (h : w ∈ fields) : IsField w := by
    subst hfields
    dsimp only at h
    split at h
    · cases h
    · rename_i hne
      rw [List.mem_singleton.mp h]
      exact isField_word s hne
  induction s using splitFields.induct with
  | case1 s cp rest hrest =>
    rw [splitFields, if_pos hrest] at h
    exact hword rfl h
  | case2 s cp rest hrest ih =>
    rw [splitFields, if_neg hrest] at h
    rcases List.mem_append.mp h with h | h
    · exact hword rfl h
    · exact ih h

theorem hexDigit_plain (b : UInt8) : ∀ c ∈ [hexDigit (b >>> 4), hexDigit (b &&& 15)],
    isHexChar c = true ∧ toUpper c = c ∧ isSpace c = false := by
  rw [List.forall_mem_cons, List.forall_mem_singleton]
  revert b
  decide +kernel

theorem base16Encode_plain {src : Bytes} : ∀ c ∈ base16Encode src,
    isHexChar c = true ∧ toUpper c = c ∧ isSpace c = false := by
  intro c hc
  obtain ⟨b, -, hb⟩ := List.mem_flatMap.mp hc
  exact hexDigit_plain b c hb

section
variable (d : Digest digestLen)

theorem base16Encode_length : (base16Encode d.val).length = hexDigestLen := by
  simp [base16Encode, d.property, digestLen, hexDigestLen]

/-- The text of an identity. -/
def identityText : Bytes := 36 :: base16Encode d.val

theorem formatMember_nickname (h : isLegalNickname cp = true) :
    formatMember (.nickname (cp.map toLower) (nickname_fits h)) = some (cp.map toLower) := by
  have hchar := legalNickname_char (legalNickname_lower h).1
  have hcanonical := canonical_nickname (nickname_fits h) fun c hc => (nicknameChar_plain (hchar c hc)).1
  rw [Member.canonical, if_pos (head_nickname _), CanonicalMember.nickname.injEq] at hcanonical
  rw [formatMember, if_pos (head_nickname _), hcanonical]

theorem formatMember_rsaId : formatMember (.rsaId d) = some (identityText d) := by
  have hupper : (base16Encode d.val).map toUpper = base16Encode d.val :=
    (List.map_congr_left fun c hc => (base16Encode_plain c hc).2.1).trans (List.map_id' _)
  have htake : d.val.take digestLen = d.val := List.take_of_length_le d.property.le
  have hhead : (Member.rsaId d).val.head? = some nodefamilyByRsaId := rfl
  have htail : (Member.rsaId d).val.tail = d.val := rfl
  have hdollar : toUpper 36 = 36 := by decide
  rw [formatMember, if_neg (head_rsaId d), if_pos hhead, htail, htake, List.map_cons, hupper, hdollar, identityText]

theorem isField_unspaced (hne : w ≠ []) (h : ∀ c ∈ w, isSpace c = false) : IsField w :=
  ⟨hne, fun c hc => blank_space (h c hc), fun c hc => h c (List.mem_of_mem_head? hc),
    fun c hc => h c (List.mem_of_getLast? hc)⟩

theorem canonicalMember_identityText : canonicalMember (identityText d) = some (.rsaId d.val) := by
  have hname : ¬isLegalNickname (identityText d) = true := fun h =>
    (nicknameChar_plain (legalNickname_char h 36 List.mem_cons_self)).2.1 rfl
  have hwithout : withoutDollar (identityText d) = base16Encode d.val := rfl
  have hlen := base16Encode_length d
  have htake : (base16Encode d.val).takeWhile isHexChar = base16Encode d.val :=
    List.takeWhile_eq_self_iff.mpr fun c hc => (base16Encode_plain c hc).1
  have hhex : isLegalHexdigest (identityText d) = true := by
    simp [isLegalHexdigest, hwithout, htake, hlen]
  have hdecode := base16Decode_encode d.val
  rw [d.property] at hdecode
  rw [canonicalMember, if_neg hname, if_pos hhex, hwithout, hdecode, Option.map_some]

end

theorem formatMember_encoded (h : Encoded m) : ∃ text, formatMember m = some text ∧
    IsField text ∧ canonicalMember text = some m.canonical := by
  cases h with
  | nickname h =>
    obtain ⟨hlegal, hsame⟩ := legalNickname_lower h
    have hchar := legalNickname_char hlegal
    refine ⟨_, formatMember_nickname h, isField_unspaced (legalNickname_ne_nil hlegal)
      fun c hc => (nicknameChar_plain (hchar c hc)).2.2.2, ?_⟩
    rw [canonicalMember, if_pos hlegal, hsame, canonical_nickname (nickname_fits h)]
    exact fun c hc => (nicknameChar_plain (hchar c hc)).1
  | rsaId d =>
    refine ⟨_, formatMember_rsaId d, isField_unspaced (List.cons_ne_nil _ _) ?_, ?_⟩
    · intro c hc
      rcases List.mem_cons.mp hc with rfl | hc
      · decide
      · exact (base16Encode_plain c hc).2.2
    · rw [canonicalMember_identityText, canonical_rsaId]

theorem base16Decode_isSome (len : ℕ) (src : Bytes) (hlen : 2 * len ≤ src.length)
    (h : ∀ c ∈ src.take (2 * len), isHexChar c = true) : (base16Decode len src).isSome := by
  have hdigit : ∀ c : UInt8, isHexChar c = true → (hexDecodeDigit c).isSome := by decide +kernel
  induction len, src using base16Decode.induct with
  | case1 src => rfl
  | case2 len a b src ih =>
    rw [Nat.mul_succ, List.take_succ_cons, List.take_succ_cons] at h
    obtain ⟨v1, hv1⟩ := Option.isSome_iff_exists.mp (hdigit a (h a (by simp)))
    obtain ⟨v2, hv2⟩ := Option.isSome_iff_exists.mp (hdigit b (h b (by simp)))
    have hrest := ih (by simp only [List.length_cons] at hlen; omega)
      fun c hc => h c (List.mem_cons_of_mem _ (List.mem_cons_of_mem _ hc))
    obtain ⟨rest, hrest⟩ := Option.isSome_iff_exists.mp hrest
    simp [base16Decode, hv1, hv2, hrest]
  | case3 len src hsrc =>
    cases src with
    | nil => simp at hlen
    | cons a src =>
      cases src with
      | nil =>
        rw [List.length_singleton] at hlen
        omega
      | cons b src => exact absurd rfl (hsrc a b src)

/-- Only what is not recognized stands for no member. -/
theorem isUnrecognized_iff (cp : Bytes) : isUnrecognized cp = true ↔ canonicalMember cp = none := by
  rw [isUnrecognized, Bool.and_eq_true, Bool.not_eq_true', Bool.not_eq_true']
  constructor
  · rintro ⟨hname, hhex⟩
    simp [canonicalMember, hname, hhex]
  · intro hnone
    by_cases hname : isLegalNickname cp = true
    · simp [canonicalMember, hname] at hnone
    · refine ⟨by simpa using hname, ?_⟩
      by_contra hhex
      rw [Bool.not_eq_false] at hhex
      rw [canonicalMember, if_neg hname, if_pos hhex, Option.map_eq_none_iff] at hnone
      have hlegal := hhex
      simp only [isLegalHexdigest, decide_eq_true_eq] at hlegal
      obtain ⟨-, hlen, hspan⟩ := hlegal
      have htake : (withoutDollar cp).take hexDigestLen = (withoutDollar cp).takeWhile isHexChar := by
        rw [← hspan]
        exact List.prefix_iff_eq_take.mp (List.takeWhile_prefix _) |>.symm
      have hsome := base16Decode_isSome digestLen (withoutDollar cp) hlen fun c hc =>
        Scanner.mem_takeWhile_pos isHexChar _ c (htake ▸ hc)
      rw [hnone] at hsome
      cases hsome

end Texts

end TorDaemon.Nodelist
