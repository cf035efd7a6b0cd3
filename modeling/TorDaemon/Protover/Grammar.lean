import TorDaemon.Protover.RoundTrip

/-! The grammar of protocol lists, and that the parser accepts exactly its texts. -/
namespace TorDaemon.Protover
open Library.Scanner

section Grammar

/-- A number in decimal. -/
structure IsNumeral (t : List Char) (n : ℕ) : Prop where
  ne_nil : t ≠ []
  digits : ∀ c ∈ t, Char.isDigit c = true
  value : Nat.ofDigitChars 10 t 0 = n

inductive IsRange : List Char → ℕ → ℕ → Prop
  | single {t : List Char} {low : ℕ} (h : IsNumeral t low) (hmax : low ≤ 63) : IsRange t low low
  | between {t u : List Char} {low high : ℕ} (hlow : IsNumeral t low) (hhigh : IsNumeral u high)
      (hle : low ≤ high) (hmax : high ≤ 63) : IsRange (t ++ '-' :: u) low high

/-- Ranges with commas between them. -/
inductive IsRanges : List Char → List (ℕ × ℕ) → Prop
  | nil : IsRanges [] []
  | single {t : List Char} {low high : ℕ} (h : IsRange t low high) : IsRanges t [(low, high)]
  | cons {t rest : List Char} {low high : ℕ} {ranges : List (ℕ × ℕ)} (h : IsRange t low high)
      (hne : ranges ≠ []) (hrest : IsRanges rest ranges) :
      IsRanges (t ++ ',' :: rest) ((low, high) :: ranges)

structure IsKeyword (name : List Char) : Prop where
  pos : 1 ≤ name.length
  le : name.length ≤ 100
  chars : ∀ c ∈ name, c.isAlphanum = true ∨ c = '-'

/-- A name and the ranges that are listed for it. -/
structure ListedEntry where
  name : List Char
  ranges : List (ℕ × ℕ)

inductive IsEntry : List Char → ListedEntry → Prop
  | mk {name rest : List Char} {ranges : List (ℕ × ℕ)} (hname : IsKeyword name)
      (hranges : IsRanges rest ranges) : IsEntry (name ++ '=' :: rest) ⟨name, ranges⟩

/-- Entries with spaces between them, and perhaps spaces at the end. -/
inductive IsProtocolList : List Char → List ListedEntry → Prop
  | nil : IsProtocolList [] []
  | last {t : List Char} {entry : ListedEntry} (h : IsEntry t entry) (spaces : ℕ) :
      IsProtocolList (t ++ List.replicate spaces ' ') [entry]
  | cons {t rest : List Char} {entry : ListedEntry} {entries : List ListedEntry}
      (h : IsEntry t entry) (spaces : ℕ) (hne : entries ≠ []) (hrest : IsProtocolList rest entries) :
      IsProtocolList (t ++ (' ' :: List.replicate spaces ' ' ++ rest)) (entry :: entries)

/-- The entry that is parsed has the name, and exactly the versions that are listed. -/
structure Lists (parsed : ProtoEntry) (entry : ListedEntry) : Prop where
  name : parsed.name = entry.name
  versions : ∀ v, parsed.bitmask.getLsbD v = true ↔
    ∃ range ∈ entry.ranges, range.1 ≤ v ∧ v ≤ range.2

end Grammar

section Ranges
variable {t u rest s : List Char} {n low high : ℕ} {ranges : List (ℕ × ℕ)} {bitmask : BitVec 64}

theorem startsWithDigit_iff : startsWithDigit s = true ↔ s.takeWhile Char.isDigit ≠ [] := by
  cases s with
  | nil => simp [startsWithDigit]
  | cons c s =>
    cases hc : c.isDigit <;> simp [startsWithDigit, hc]

theorem isNumeral_takeWhile (h : startsWithDigit s = true) :
    IsNumeral (s.takeWhile Char.isDigit) (Nat.ofDigitChars 10 (s.takeWhile Char.isDigit) 0) :=
  ⟨startsWithDigit_iff.mp h, mem_takeWhile_pos _ _, rfl⟩

theorem IsNumeral.startsWithDigit (h : IsNumeral t n) (rest : List Char) :
    startsWithDigit (t ++ rest) = true := by
  cases t with
  | nil => exact absurd rfl h.ne_nil
  | cons c t => simpa [Protover.startsWithDigit] using h.digits c List.mem_cons_self

theorem IsNumeral.parseUlong (h : IsNumeral t n) (hmax : n ≤ 63)
    (hrest : ∀ c ∈ rest.head?, Char.isDigit c = false) :
    parseUlong (t ++ rest) 0 maxProtocolVersion = some (n, rest) := by
  have hspan := span_append h.digits hrest
  have hle : n ≤ maxProtocolVersion := hmax
  simp only [Protover.parseUlong, hspan.1, hspan.2, h.value, Nat.zero_le, true_and, hle, if_true]

theorem parseUlong_eq_some (h : parseUlong s 0 maxProtocolVersion = some (n, rest)) :
    Nat.ofDigitChars 10 (s.takeWhile Char.isDigit) 0 = n ∧ n ≤ 63 ∧
      s.dropWhile Char.isDigit = rest := by
  unfold parseUlong at h
  simp only [Nat.zero_le, true_and] at h
  split_ifs at h with hle
  cases h
  exact ⟨rfl, hle, rfl⟩

theorem IsRange.parse (h : IsRange t low high) : parseVersionRange t = some (low, high) := by
  cases h with
  | single h hmax =>
    have hstart := h.startsWithDigit []
    have hparse := h.parseUlong hmax (show ∀ c ∈ ([] : List Char).head?, c.isDigit = false by simp)
    rw [List.append_nil] at hstart hparse
    simp [parseVersionRange, hstart, hparse]
  | between hlow hhigh hle hmax =>
    rename_i t u
    have hstart := hhigh.startsWithDigit []
    have hparse := hhigh.parseUlong hmax (show ∀ c ∈ ([] : List Char).head?, c.isDigit = false by simp)
    have hparse' := hlow.parseUlong (le_trans hle hmax)
      (show ∀ c ∈ ('-' :: u).head?, c.isDigit = false by simp)
    rw [List.append_nil] at hstart hparse
    simp [parseVersionRange, hlow.startsWithDigit, hstart, hparse, hparse', Nat.not_lt.mpr hle]

theorem isRange_of_parse (h : parseVersionRange t = some (low, high)) : IsRange t low high := by
  unfold parseVersionRange at h
  cases hstart : startsWithDigit t with
  | false => simp [hstart] at h
  | true =>
    simp only [hstart, Bool.not_true, Bool.false_eq_true, if_false, Option.bind_eq_bind,
      Option.bind_eq_some_iff] at h
    obtain ⟨⟨n, next⟩, hparse, h⟩ := h
    obtain ⟨hvalue, hmax, hnext⟩ := parseUlong_eq_some hparse
    have hnumeral := isNumeral_takeWhile hstart
    rw [hvalue] at hnumeral
    have hsplit := List.takeWhile_append_dropWhile (p := Char.isDigit) (l := t)
    rw [hnext] at hsplit
    cases next with
    | nil =>
      cases h
      rw [List.append_nil] at hsplit
      rw [hsplit] at hnumeral
      exact .single hnumeral hmax
    | cons c u =>
      simp only at h
      split_ifs at h with hc hdigit
      rw [not_not] at hc
      subst hc
      obtain ⟨⟨m, next'⟩, hparse', h⟩ := Option.bind_eq_some_iff.mp h
      simp only at h
      split_ifs at h with hend hlt
      cases h
      rw [not_not] at hend
      obtain ⟨hvalue', hmax', hnext'⟩ := parseUlong_eq_some hparse'
      have hnumeral' := isNumeral_takeWhile (s := u) (by simpa using hdigit)
      have hsplit' := List.takeWhile_append_dropWhile (p := Char.isDigit) (l := u)
      rw [hnext', hend, List.append_nil] at hsplit'
      rw [hvalue', hsplit'] at hnumeral'
      rw [← hsplit]
      exact .between hnumeral hnumeral' (Nat.not_lt.mp hlt) hmax'

section
variable (h : IsRange t low high)
include h

theorem IsRange.chars : ∀ c ∈ t, c.isDigit = true ∨ c = '-' := by
  intro c hc
  cases h with
  | single h _ => exact .inl (h.digits c hc)
  | between hlow hhigh _ _ =>
    cases List.mem_append.mp hc with
    | inl hc => exact .inl (hlow.digits c hc)
    | inr hc =>
      cases List.mem_cons.mp hc with
      | inl hc => exact .inr hc
      | inr hc => exact .inl (hhigh.digits c hc)

theorem IsRange.ne_nil : t ≠ [] := by
  cases h with
  | single h _ => exact h.ne_nil
  | between _ _ _ _ => simp

theorem IsRange.char_ne {d : Char} (hdigit : d.isDigit = false)
    (hd : d ≠ '-') : ∀ c ∈ t, (c != d) = true := by
  intro c hc
  rw [bne_iff_ne]
  rintro rfl
  cases h.chars c hc with
  | inl h => rw [h] at hdigit; cases hdigit
  | inr h => exact hd h

end

theorem IsRanges.ne_nil (h : IsRanges s ranges) (hne : ranges ≠ []) : s ≠ [] := by
  cases h with
  | nil => exact absurd rfl hne
  | single h => exact h.ne_nil
  | cons h _ _ => simp

theorem IsRanges.eq_nil (h : IsRanges s []) : s = [] := by
  cases h
  rfl

theorem parseRanges_comma : parseRanges [','] bitmask = none := by
  rw [parseRanges, if_neg (List.cons_ne_nil _ _)]
  split
  · rfl
  · rename_i h
    exact absurd (parseVersionRange_nil.symm.trans h) (by simp)

/-- The mask of the ranges. -/
def maskOfRanges (bitmask : BitVec 64) (ranges : List (ℕ × ℕ)) : BitVec 64 :=
  ranges.foldl (fun bitmask range => bitmask ||| bitmaskForRange range.1 range.2) bitmask

theorem IsRanges.parse (h : IsRanges s ranges) :
    parseRanges s bitmask = some (maskOfRanges bitmask ranges) := by
  induction h generalizing bitmask with
  | nil =>
    rw [parseRanges]
    rfl
  | single h =>
    have hspan := span_append (h.char_ne (d := ',') (by decide) (by decide))
      (show ∀ c ∈ ([] : List Char).head?, (c != ',') = false by simp)
    rw [List.append_nil] at hspan
    rw [parseRanges_of_some (hspan.1.symm ▸ h.parse), hspan.2, if_neg (by simp), parseRanges]
    rfl
  | @cons t rest low high ranges h hne hrest ih =>
    have hspan := span_append (h.char_ne (d := ',') (by decide) (by decide))
      (show ∀ c ∈ (',' :: rest).head?, (c != ',') = false by simp)
    have hlong := List.length_pos_iff.mpr (hrest.ne_nil hne)
    rw [parseRanges_of_some (hspan.1.symm ▸ h.parse), hspan.2, List.length_cons,
      if_pos (by omega), List.tail_cons]
    exact ih

theorem isRanges_of_parse {result : BitVec 64} (h : parseRanges s bitmask = some result) :
    ∃ ranges, IsRanges s ranges ∧ result = maskOfRanges bitmask ranges := by
  fun_induction parseRanges s bitmask with
  | case1 bitmask =>
    cases h
    exact ⟨[], .nil, rfl⟩
  | case2 => cases h
  | case3 s bitmask hs low high hrange comma ih =>
    obtain ⟨ranges, hranges, hresult⟩ := ih h
    have hfirst := isRange_of_parse hrange
    have hsplit := List.takeWhile_append_dropWhile (p := (· != ',')) (l := s)
    apply Exists.intro ((low, high) :: ranges)
    apply And.intro _ hresult
    cases hcomma : s.dropWhile (· != ',') with
    | nil =>
      have hnil : ranges = [] := by
        have hrest : IsRanges [] ranges := by simpa [comma, hcomma] using hranges
        by_contra hne
        exact hrest.ne_nil hne rfl
      rw [hcomma, List.append_nil] at hsplit
      rw [hsplit] at hfirst
      rw [hnil]
      exact .single hfirst
    | cons c rest =>
      have hc : c = ',' := by
        have hhead := head_dropWhile (· != ',') s c (by rw [hcomma]; rfl)
        simpa using hhead
      subst hc
      rw [hcomma] at hsplit
      cases rest with
      | nil =>
        -- the comma at the end is not skipped, and is no range
        exfalso
        have hlast : parseRanges [','] (bitmask ||| bitmaskForRange low high) = some result := by
          simpa [comma, hcomma] using h
        rw [parseRanges_comma] at hlast
        cases hlast
      | cons d rest =>
        have hrest : IsRanges (d :: rest) ranges := by
          simpa [comma, hcomma] using hranges
        have hne : ranges ≠ [] := by
          intro hnil
          rw [hnil] at hrest
          exact List.cons_ne_nil d rest hrest.eq_nil
        rw [← hsplit]
        exact .cons hfirst hne hrest

theorem maskOfRanges_getLsbD (h : ∀ range ∈ ranges, range.2 ≤ 63) (v : ℕ) :
    (maskOfRanges bitmask ranges).getLsbD v = true ↔
      bitmask.getLsbD v = true ∨ ∃ range ∈ ranges, range.1 ≤ v ∧ v ≤ range.2 := by
  induction ranges generalizing bitmask with
  | nil => simp [maskOfRanges]
  | cons range ranges ih =>
    have hmax := h range List.mem_cons_self
    have hrest := @ih (bitmask ||| bitmaskForRange range.1 range.2)
      fun r hr => h r (List.mem_cons_of_mem _ hr)
    rw [show maskOfRanges bitmask (range :: ranges) = maskOfRanges _ ranges from rfl, hrest,
      BitVec.getLsbD_or, bitmaskForRange_getLsbD (by omega)]
    simp only [List.mem_cons, exists_eq_or_imp, Bool.or_eq_true, decide_eq_true_eq, or_assoc]

theorem IsRange.le_max (h : IsRange t low high) : high ≤ 63 := by
  cases h with
  | single _ hmax => exact hmax
  | between _ _ _ hmax => exact hmax

theorem IsRanges.le_max (h : IsRanges s ranges) : ∀ range ∈ ranges, range.2 ≤ 63 := by
  induction h with
  | nil => exact fun _ hr => nomatch hr
  | single h =>
    intro range hrange
    cases List.mem_singleton.mp hrange
    exact h.le_max
  | cons h _ _ ih =>
    intro range hrange
    cases List.mem_cons.mp hrange with
    | inl heq => rw [heq]; exact h.le_max
    | inr hmem => exact ih range hmem

end Ranges

section Lists
variable {s t rest : List Char} {parsed parsed' : ProtoEntry} {entry : ListedEntry}
  {entries : List ListedEntry} {protos : List ProtoEntry} {name : List Char}

theorem isKeyword_iff : IsKeyword name ↔ LegalName name := by
  constructor
  · intro h
    constructor
    · exact List.length_pos_iff.mp h.pos
    · exact h.le
    · apply List.all_eq_true.mpr
      intro c hc
      simpa using h.chars c hc
  · intro h
    constructor
    · exact List.length_pos_iff.mpr h.ne_nil
    · exact h.length_le
    · intro c hc
      simpa using List.all_eq_true.mp h.valid c hc

theorem Lists.eq (h : Lists parsed entry) (h' : Lists parsed' entry) : parsed = parsed' := by
  cases parsed with
  | mk name bitmask =>
    cases parsed' with
    | mk name' bitmask' =>
      have hname : name = name' := h.name.trans h'.name.symm
      have hmask : bitmask = bitmask' := by
        apply BitVec.eq_of_getLsbD_eq
        intro v _
        rw [Bool.eq_iff_iff, h.versions, h'.versions]
      rw [hname, hmask]

theorem IsEntry.parse (h : IsEntry s entry) :
    ∃ parsed, parseSingleEntry s = some parsed ∧ Lists parsed entry := by
  cases h with
  | @mk name rest ranges hname hranges =>
    have hlegal := isKeyword_iff.mp hname
    have hspan := span_append (hlegal.char_ne (d := '=') (by decide))
      (show ∀ c ∈ ('=' :: rest).head?, (c != '=') = false by simp)
    apply Exists.intro ⟨name, maskOfRanges 0 ranges⟩
    constructor
    · simp only [parseSingleEntry, hspan.1, hspan.2, hlegal.ne_nil, hlegal.valid, hranges.parse,
        List.tail_cons, List.mem_append, List.mem_cons, true_or, or_true, not_true_eq_false,
        if_false, Bool.not_true, Bool.false_eq_true, if_neg (Nat.not_lt.mpr hlegal.length_le),
        Option.map_some]
    · constructor
      · rfl
      · intro v
        rw [maskOfRanges_getLsbD hranges.le_max]
        simp

theorem isEntry_of_parse (h : parseSingleEntry s = some parsed) :
    ∃ entry, IsEntry s entry ∧ Lists parsed entry := by
  have hlegal := parseSingleEntry_legal h
  simp only [parseSingleEntry] at h
  split_ifs at h with hequals hnil hlong hvalid
  obtain ⟨bitmask, hranges, rfl⟩ := Option.map_eq_some_iff.mp h
  obtain ⟨ranges, hgrammar, hmask⟩ := isRanges_of_parse hranges
  have hsplit := List.takeWhile_append_dropWhile (p := (· != '=')) (l := s)
  cases hrest : s.dropWhile (· != '=') with
  | nil =>
    exfalso
    rw [List.dropWhile_eq_nil_iff] at hrest
    exact absurd (hrest '=' hequals) (by decide)
  | cons c rest =>
    have hc : c = '=' := by
      have hhead := head_dropWhile (· != '=') s c (by rw [hrest]; rfl)
      simpa using hhead
    subst hc
    rw [hrest] at hsplit
    rw [hrest, List.tail_cons] at hgrammar
    have hentry := IsEntry.mk (isKeyword_iff.mpr hlegal) hgrammar
    rw [hsplit] at hentry
    refine ⟨_, hentry, rfl, fun v => ?_⟩
    rw [hmask, maskOfRanges_getLsbD hgrammar.le_max]
    simp

theorem IsRanges.char_ne {ranges : List (ℕ × ℕ)} (h : IsRanges s ranges) :
    ∀ c ∈ s, (c != ' ') = true := by
  induction h with
  | nil => exact fun _ hc => nomatch hc
  | single h => exact h.char_ne (by decide) (by decide)
  | cons h _ _ ih =>
    intro c hc
    cases List.mem_append.mp hc with
    | inl hc => exact h.char_ne (by decide) (by decide) c hc
    | inr hc =>
      cases List.mem_cons.mp hc with
      | inl hc => rw [hc]; decide
      | inr hc => exact ih c hc

theorem IsEntry.char_ne (h : IsEntry s entry) : ∀ c ∈ s, (c != ' ') = true := by
  cases h with
  | mk hname hranges =>
    intro c hc
    cases List.mem_append.mp hc with
    | inl hc => exact (isKeyword_iff.mp hname).char_ne (by decide) c hc
    | inr hc =>
      cases List.mem_cons.mp hc with
      | inl hc => rw [hc]; decide
      | inr hc => exact hranges.char_ne c hc

theorem IsEntry.ne_nil (h : IsEntry s entry) : s ≠ [] := by
  cases h with
  | mk _ _ => simp

theorem IsEntry.dropSpaces (h : IsEntry t entry) (rest : List Char) :
    (t ++ rest).dropWhile (· == ' ') = t ++ rest := by
  obtain ⟨c, cs, ht⟩ := List.exists_cons_of_ne_nil h.ne_nil
  have hc : (c == ' ') = false := by simpa using h.char_ne c (by simp [ht])
  simp [ht, hc]

theorem IsProtocolList.dropSpaces (h : IsProtocolList s entries) (hne : entries ≠ []) :
    s.dropWhile (· == ' ') = s := by
  cases h with
  | nil => exact absurd rfl hne
  | last h spaces => exact h.dropSpaces _
  | cons h spaces _ _ => exact h.dropSpaces _

theorem dropWhile_spaces (spaces : ℕ) (rest : List Char) :
    (List.replicate spaces ' ' ++ rest).dropWhile (· == ' ') = rest.dropWhile (· == ' ') := by
  induction spaces with
  | zero => rfl
  | succ spaces ih =>
    rw [List.replicate_succ, List.cons_append, List.dropWhile_cons_of_pos (by decide), ih]

theorem head_spaces (spaces : ℕ) : ∀ c ∈ (List.replicate spaces ' ').head?, (c != ' ') = false := by
  cases spaces with
  | zero => simp
  | succ spaces => simp [List.replicate_succ]

theorem IsProtocolList.parse (h : IsProtocolList s entries) :
    ∃ protos, parseProtocolList s = some protos ∧ List.Forall₂ Lists protos entries := by
  induction h with
  | nil =>
    rw [parseProtocolList]
    exact ⟨[], rfl, .nil⟩
  | @last t entry h spaces =>
    obtain ⟨parsed, hparse, hlists⟩ := h.parse
    have hspan := span_append h.char_ne (head_spaces spaces)
    have hdrop := dropWhile_spaces spaces []
    rw [List.append_nil, List.dropWhile_nil] at hdrop
    rw [parseProtocolList_of_some (hspan.1.symm ▸ hparse), hspan.2, hdrop, parseProtocolList]
    exact ⟨[parsed], rfl, .cons hlists .nil⟩
  | @cons t rest entry entries h spaces hne hrest ih =>
    obtain ⟨parsed, hparse, hlists⟩ := h.parse
    obtain ⟨protos, hprotos, hall⟩ := ih
    have hspan := span_append h.char_ne
      (show ∀ c ∈ (' ' :: List.replicate spaces ' ' ++ rest).head?, (c != ' ') = false by simp)
    have hdrop := dropWhile_spaces (spaces + 1) rest
    rw [List.replicate_succ, hrest.dropSpaces hne] at hdrop
    rw [parseProtocolList_of_some (hspan.1.symm ▸ hparse), hspan.2, hdrop, hprotos]
    exact ⟨parsed :: protos, rfl, .cons hlists hall⟩

theorem exists_spaces (s : List Char) :
    ∃ spaces, s = List.replicate spaces ' ' ++ s.dropWhile (· == ' ') := by
  induction s with
  | nil => exact ⟨0, rfl⟩
  | cons c s ih =>
    by_cases hc : c = ' '
    · obtain ⟨spaces, hs⟩ := ih
      apply Exists.intro (spaces + 1)
      rw [hc, List.dropWhile_cons_of_pos (by decide), List.replicate_succ, List.cons_append, ← hs]
    · apply Exists.intro 0
      rw [List.dropWhile_cons_of_neg (by simpa using hc)]
      rfl

theorem IsProtocolList.eq_nil (h : IsProtocolList s []) : s = [] := by
  cases h
  rfl

theorem IsProtocolList.ne_nil (h : IsProtocolList s entries) (hne : entries ≠ []) : s ≠ [] := by
  cases h with
  | nil => exact absurd rfl hne
  | last h _ => simp [h.ne_nil]
  | cons h _ _ _ => simp

theorem lists_unique {protos' : List ProtoEntry} (h : List.Forall₂ Lists protos entries)
    (h' : List.Forall₂ Lists protos' entries) : protos = protos' := by
  induction h generalizing protos' with
  | nil =>
    cases h'
    rfl
  | cons hl _ ih =>
    cases h' with
    | cons hl' h' => rw [hl.eq hl', ih h']

theorem isProtocolList_of_parse (h : parseProtocolList s = some protos) :
    ∃ entries, IsProtocolList s entries ∧ List.Forall₂ Lists protos entries := by
  fun_induction parseProtocolList s generalizing protos with
  | case1 =>
    cases h
    exact ⟨[], .nil, .nil⟩
  | case2 => cases h
  | case3 s hs parsed hparsed ih =>
    obtain ⟨protos, hprotos, rfl⟩ := Option.map_eq_some_iff.mp h
    obtain ⟨entries, hgrammar, hall⟩ := ih hprotos
    obtain ⟨entry, hentry, hlists⟩ := isEntry_of_parse hparsed
    apply Exists.intro (entry :: entries)
    apply And.intro _ (List.Forall₂.cons hlists hall)
    have hsplit := List.takeWhile_append_dropWhile (p := (· != ' ')) (l := s)
    obtain ⟨spaces, hspaces⟩ := exists_spaces (s.dropWhile (· != ' '))
    cases entries with
    | nil =>
      have hnil := hgrammar.eq_nil
      rw [hnil, List.append_nil] at hspaces
      rw [← hsplit, hspaces]
      exact .last hentry spaces
    | cons entry' entries =>
      have hne : entry' :: entries ≠ [] := List.cons_ne_nil _ _
      cases spaces with
      | zero =>
        -- the entry ends where a space or the text does
        exfalso
        obtain ⟨c, cs, hcs⟩ := List.exists_cons_of_ne_nil (hgrammar.ne_nil hne)
        have hspace := head_dropWhile (· != ' ') s c (by rw [hspaces, hcs]; rfl)
        have hstart := head_dropWhile (· == ' ') (s.dropWhile (· != ' ')) c (by rw [hcs]; rfl)
        simp at hspace hstart
        exact hstart hspace
      | succ spaces =>
        rw [← hsplit, hspaces]
        exact .cons hentry spaces hne hgrammar

/-- The parser accepts exactly the protocol lists, and what it returns has for each entry the
name and exactly the versions that are listed. -/
theorem parseProtocolList_exact (s : List Char) (protos : List ProtoEntry) :
    parseProtocolList s = some protos ↔
      ∃ entries, IsProtocolList s entries ∧ List.Forall₂ Lists protos entries := by
  constructor
  · exact isProtocolList_of_parse
  · rintro ⟨entries, hgrammar, hall⟩
    obtain ⟨protos', hparse, hall'⟩ := hgrammar.parse
    rw [hparse]
    exact congrArg some (lists_unique hall' hall)

end Lists

end TorDaemon.Protover
