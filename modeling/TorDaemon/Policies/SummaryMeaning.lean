import TorDaemon.Policies.SummaryItems

/-! What is read back of a policy summary is what the rule says. -/
namespace TorDaemon.Policies
open Library.NetworkOrder Library.Scanner Library.Tiling SharedRandom

section Ranges
variable {summary : Summary} {f : ℕ → ℕ × Prop} {s : PolicySummaryItem} {a n p start : ℕ}

/-- The ranges tile the ports, with the marks of the items. -/
abbrev Marks (g : ℕ → Prop) (a n : ℕ) (ranges : List (Bool × ShortPolicyEntry)) : Prop :=
  Tiles (fun r => r.2.minPort) (fun r => r.2.maxPort) (fun r => r.1 = true) g a n ranges

theorem summaryRanges_marks (h : Summarizes f a n (s :: summary)) (hstart : start ≤ a)
    (hopen : ∀ p, start ≤ p → p < a → (f p).2 = (s.accepted = true)) :
    Marks (fun p => (f p).2) start n (summaryRanges start (s :: summary)) := by
  have hfirst : ∀ p, start ≤ p → p ≤ s.prtMax → (f p).2 = (s.accepted = true) := by
    intro p hp hps
    by_cases hlow : p < a
    · exact hopen p hp hlow
    · rw [h.2.2.1 p (not_lt.mp hlow) hps]
      rfl
  induction summary generalizing s a start with
  | nil =>
    have hle := h.2.1
    have hend : s.prtMax + 1 = n := h.2.2.2
    exact ⟨rfl, by dsimp only; omega, hfirst, hend⟩
  | cons s' summary ih =>
    have hle := h.2.1
    have hrest := h.2.2.2
    have hvalue (start' : ℕ) (hstart' : start' ≤ s.prtMax + 1)
        (hopen' : ∀ p, start' ≤ p → p < s.prtMax + 1 → (f p).2 = (s'.accepted = true)) :=
      ih hrest hstart' hopen' (by
        intro p hp hps
        by_cases hlow : p < s.prtMax + 1
        · exact hopen' p hp hlow
        · rw [hrest.2.2.1 p (not_lt.mp hlow) hps]
          rfl)
    rw [summaryRanges]
    by_cases hsame : s.accepted = s'.accepted
    · rw [if_neg (not_not.mpr hsame)]
      apply hvalue start (by omega)
      intro p hp hlt
      rw [← hsame]
      exact hfirst p hp (by omega)
    · rw [if_pos hsame]
      refine ⟨rfl, by dsimp only; omega, hfirst, ?_⟩
      have hmin := hrest.1
      have hmarks := hvalue s'.prtMin hmin.le (by
        intro p hp hlt
        omega)
      rwa [hmin] at hmarks ⊢

/-- Some entry has the port. -/
def PortIn (p : ℕ) (entries : List ShortPolicyEntry) : Prop :=
  ∃ e ∈ entries, e.minPort ≤ p ∧ p ≤ e.maxPort

theorem portIn_ranges_iff {accepted : Bool} : PortIn p (summary.ranges accepted) ↔
    ∃ r ∈ summaryRanges 1 summary, r.1 = accepted ∧ r.2.minPort ≤ p ∧ p ≤ r.2.maxPort := by
  simp only [PortIn, Summary.ranges, List.mem_map, List.mem_filter, decide_eq_true_eq]
  constructor
  · rintro ⟨e, ⟨r, ⟨hr, haccepted⟩, rfl⟩, hports⟩
    exact ⟨r, hr, haccepted, hports⟩
  · rintro ⟨r, hr, haccepted, hports⟩
    exact ⟨r.2, ⟨r, ⟨hr, haccepted⟩, rfl⟩, hports⟩

theorem marks_of_summarizes (h : Summarizes f 1 (2 ^ 16) summary) :
    Marks (fun p => (f p).2) 1 (2 ^ 16) (summaryRanges 1 summary) := by
  cases summary with
  | nil =>
    have hend : 1 = 2 ^ 16 := h
    exact absurd hend (by decide)
  | cons s summary => exact summaryRanges_marks h le_rfl fun p hp hlt => by omega

theorem portIn_ranges (h : Summarizes f 1 (2 ^ 16) summary) (hp : 1 ≤ p) (hlt : p < 2 ^ 16) :
    (PortIn p (summary.ranges true) ↔ (f p).2) ∧
      (PortIn p (summary.ranges false) ↔ ¬(f p).2) := by
  have hmarks := marks_of_summarizes h
  obtain ⟨r, hr, hlow, hhigh⟩ := hmarks.exists_mem hp hlt
  have hvalue (r' : Bool × ShortPolicyEntry) (hr' : r' ∈ summaryRanges 1 summary)
      (hlow' : r'.2.minPort ≤ p) (hhigh' : p ≤ r'.2.maxPort) : (f p).2 ↔ r'.1 = true :=
    Eq.to_iff (hmarks.value hr' hlow' hhigh')
  rw [portIn_ranges_iff, portIn_ranges_iff]
  constructor
  · constructor
    · rintro ⟨r', hr', haccepted, hlow', hhigh'⟩
      exact (hvalue r' hr' hlow' hhigh').mpr haccepted
    · intro haccepted
      exact ⟨r, hr, (hvalue r hr hlow hhigh).mp haccepted, hlow, hhigh⟩
  · constructor
    · rintro ⟨r', hr', haccepted, hlow', hhigh'⟩
      rw [hvalue r' hr' hlow' hhigh', haccepted]
      exact Bool.false_ne_true
    · intro hnot
      rw [hvalue r hr hlow hhigh, Bool.not_eq_true] at hnot
      exact ⟨r, hr, hnot, hlow, hhigh⟩

end Ranges

section Text
variable {e : ShortPolicyEntry} {rest : Bytes} {n : ℕ}

/-- The entries that a summary is written with. -/
structure ShortPolicyEntry.WellFormed (e : ShortPolicyEntry) : Prop where
  minPort_pos : 1 ≤ e.minPort
  minPort_le : e.minPort ≤ e.maxPort
  maxPort_le : e.maxPort ≤ 65535

theorem torParseUlong_decimalString (low high : ℕ) (hlow : low ≤ n) (hhigh : n ≤ high) (hn : n < 2 ^ 64)
    (hrest : ∀ x ∈ rest.head?, isDigit x = false) :
    torParseUlong (decimalString n ++ rest) low high = (some n, rest) := by
  have hdigits := decimalString_digits n
  have hne := (decimalString_isWord n).nonempty
  obtain ⟨x, digits, hcons⟩ := List.exists_cons_of_ne_nil hne
  have hx : isDigit x = true := hdigits x (by rw [hcons]; exact .head _)
  have hspace : (decimalString n ++ rest).dropWhile isSpace = decimalString n ++ rest := by
    rw [hcons, List.cons_append]
    exact List.dropWhile_cons_of_neg (by simp [noSpace_of_digit hx])
  have hsign (c : UInt8) (hc : isDigit c = false) : (decimalString n ++ rest).head? ≠ some c := by
    rw [hcons, List.cons_append, List.head?_cons]
    rintro h
    rw [Option.some.inj h, hc] at hx
    cases hx
  have hminus := hsign 45 (by decide)
  have hplus := hsign 43 (by decide)
  have hunsigned : unsignedText (decimalString n ++ rest) = decimalString n ++ rest := by
    rw [unsignedText, hspace, if_neg (not_or.mpr ⟨hminus, hplus⟩)]
  obtain ⟨htake, hdrop⟩ := span_append hdigits hrest
  rw [torParseUlong, hunsigned, hspace, htake, hdrop, if_neg hne]
  dsimp only
  rw [if_neg hminus, decimal_decimalString, if_neg (by omega)]

/-- A comma, or the end. -/
def Ends (rest next : Bytes) : Prop := rest = [] ∧ next = [] ∨ rest = 44 :: next

theorem Ends.head {next : Bytes} (h : Ends rest next) : ∀ x ∈ rest.head?, isDigit x = false := by
  intro x hx
  rcases h with ⟨rfl, -⟩ | rfl
  · cases hx
  · cases hx
    decide

theorem parseEntry_text {next : Bytes} (he : e.WellFormed) (h : Ends rest next) :
    parseEntry (e.text ++ rest) = .entry e next := by
  have hpos := he.minPort_pos
  have hle := he.minPort_le
  have hmax := he.maxPort_le
  rw [ShortPolicyEntry.text]
  split_ifs with hsame
  · have hparse := torParseUlong_decimalString 1 65535 hpos (by omega) (by omega) h.head
    have hentry : (⟨e.minPort, e.minPort⟩ : ShortPolicyEntry) = e := by
      cases e
      dsimp only at hsame ⊢
      rw [← hsame]
    rw [parseEntry, hparse]
    rcases h with ⟨rfl, rfl⟩ | rfl
    · dsimp only
      rw [hentry]
    · dsimp only
      rw [if_pos rfl, hentry]
  · have hdash : ∀ x ∈ (45 :: (decimalString e.maxPort ++ rest)).head?, isDigit x = false := by
      intro x hx
      cases hx
      decide
    have hlow := torParseUlong_decimalString 1 65535 hpos (by omega) (by omega) hdash
    have hhigh := torParseUlong_decimalString _ _ hle hmax (by omega) h.head
    rw [parseEntry, List.append_assoc, List.cons_append, hlow]
    dsimp only
    rw [if_neg (by decide), if_pos rfl, hhigh]
    rcases h with ⟨rfl, rfl⟩ | rfl
    · rfl
    · rfl

theorem text_chars : ∀ x ∈ e.text, isDigit x = true ∨ x = 45 := by
  intro x hx
  rw [ShortPolicyEntry.text] at hx
  split_ifs at hx
  · exact .inl (decimalString_digits _ x hx)
  · rw [List.mem_append, List.mem_cons] at hx
    rcases hx with hx | rfl | hx
    · exact .inl (decimalString_digits _ x hx)
    · exact .inr rfl
    · exact .inl (decimalString_digits _ x hx)

theorem comma_notMem_text : (44 : UInt8) ∉ e.text := by
  intro hmem
  rcases text_chars 44 hmem with h | h
  · exact absurd h (by decide)
  · exact absurd h (by decide)

theorem text_ne_nil : e.text ≠ [] := by
  rw [ShortPolicyEntry.text]
  split_ifs
  · exact (decimalString_isWord _).nonempty
  · exact List.append_ne_nil_of_right_ne_nil _ (List.cons_ne_nil _ _)

theorem text_length (he : e.WellFormed) : e.text.length ≤ 11 := by
  have hnumber (n : ℕ) (hn : n < 10 ^ 5) : (decimalString n).length ≤ 5 := by
    rw [decimalString, List.length_map]
    exact (Nat.length_toDigits_le_iff (by decide) (by decide)).mpr hn
  have hle := he.minPort_le
  have hmax := he.maxPort_le
  have hmin := hnumber e.minPort (by omega)
  have hmax := hnumber e.maxPort (by omega)
  rw [ShortPolicyEntry.text]
  split_ifs
  · omega
  · rw [List.length_append, List.length_cons]
    omega

end Text

section Parse
variable {entries accepts rejects : List ShortPolicyEntry} {e : ShortPolicyEntry} {port : ℕ}

theorem joinedRanges_cons (e : ShortPolicyEntry) (entries : List ShortPolicyEntry) :
    ∃ rest, joinedRanges (e :: entries) = e.text ++ rest ∧ Ends rest (joinedRanges entries) := by
  cases entries with
  | nil => exact ⟨[], (List.append_nil _).symm, .inl ⟨rfl, rfl⟩⟩
  | cons e' entries =>
    refine ⟨44 :: joinedRanges (e' :: entries), ?_, .inr rfl⟩
    rfl

/-- The loop reads the entries that were written. -/
theorem parseEntries_joinedRanges (found : List ShortPolicyEntry) (h : ∀ e ∈ entries, e.WellFormed)
    (hlen : found.length + entries.length ≤ maxExitpolicySummaryLen) :
    parseEntries (joinedRanges entries) found = some (found ++ entries) := by
  induction entries generalizing found with
  | nil =>
    have hnil : joinedRanges [] = [] := rfl
    rw [parseEntries, if_pos hnil, List.append_nil]
  | cons e entries ih =>
    obtain ⟨rest, hjoined, hends⟩ := joinedRanges_cons e entries
    have hparse := parseEntry_text (h e (.head _)) hends
    rw [List.length_cons] at hlen
    rw [← hjoined] at hparse
    have hne : joinedRanges (e :: entries) ≠ [] := by
      rw [hjoined]
      exact List.append_ne_nil_of_left_ne_nil text_ne_nil _
    rw [parseEntries, if_neg hne, if_neg (by omega)]
    have hrest := ih (found ++ [e]) (fun x hx => h x (.tail _ hx)) (by
      rw [List.length_append, List.length_singleton]
      omega)
    rw [List.append_assoc] at hrest
    split
    all_goals rename_i heq; rw [hparse] at heq
    · cases heq
    · cases heq
    · cases heq
    · obtain ⟨rfl, rfl⟩ := ParsedEntry.entry.inj heq
      exact hrest

theorem parseShortPolicyEntries_joinedRanges {isAccept : Bool} (h : ∀ e ∈ entries, e.WellFormed)
    (hne : entries ≠ []) (hlen : (joinedRanges entries).length ≤ maxExitpolicySummaryLen) :
    parseShortPolicyEntries isAccept (joinedRanges entries) = some ⟨isAccept, entries⟩ := by
  have hnonempty : ∀ l ∈ entries.map ShortPolicyEntry.text, l ≠ [] := by
    intro l hl
    obtain ⟨e, -, rfl⟩ := List.mem_map.mp hl
    exact text_ne_nil
  have htwo := two_mul_length_le_joined 44 hnonempty
  rw [List.length_map] at htwo
  rw [joinedRanges] at hlen
  have hparse := parseEntries_joinedRanges [] h (by
    rw [List.length_nil]
    omega)
  rw [parseShortPolicyEntries, hparse, Option.bind_eq_bind, Option.bind_some, List.nil_append,
    if_neg hne]

theorem parseShortPolicy_accept (s : Bytes) :
    parseShortPolicy (ascii "accept " ++ s) = parseShortPolicyEntries true s := by
  rw [parseShortPolicy, if_pos (by simp), List.drop_left]

theorem parseShortPolicy_reject (s : Bytes) :
    parseShortPolicy (ascii "reject " ++ s) = parseShortPolicyEntries false s := by
  have hother : (ascii "accept ").isPrefixOf (ascii "reject " ++ s) = false := rfl
  rw [parseShortPolicy, hother, if_neg Bool.false_ne_true, if_pos (by simp), List.drop_left]

/-- The policy accepts a port, of an address that is not refused. -/
def ShortPolicy.AcceptsPort (policy : ShortPolicy) (port : ℕ) : Prop :=
  compareTorAddrToShortPolicy false port policy = some .probablyAccepted

theorem acceptsPort_iff {isAccept : Bool} (hport : 1 ≤ port) :
    (ShortPolicy.mk isAccept entries).AcceptsPort port ↔
      (PortIn port entries ↔ isAccept = true) := by
  have hany : (entries.any fun e => e.minPort ≤ port ∧ port ≤ e.maxPort) = true ↔
      PortIn port entries := by
    simp [PortIn]
  rw [ShortPolicy.AcceptsPort, compareTorAddrToShortPolicy, if_neg (by omega),
    if_neg Bool.false_ne_true]
  dsimp only
  by_cases hin : PortIn port entries
  · rw [if_pos (hany.mpr hin)]
    cases isAccept <;> simp [hin]
  · rw [if_neg (mt hany.mp hin)]
    cases isAccept <;> simp [hin]

theorem commaBack_spec {s : Bytes} {c n : ℕ} (hc : s[c]? = some 44) (hle : c ≤ n) :
    ∃ d, commaBack s n = some d ∧ d ≤ n ∧ s[d]? = some 44 := by
  induction n with
  | zero =>
    obtain rfl := Nat.le_zero.mp hle
    exact ⟨0, if_pos hc, le_rfl, hc⟩
  | succ n ih =>
    rw [commaBack]
    by_cases hlast : s[n + 1]? = some 44
    · rw [if_pos hlast]
      exact ⟨n + 1, rfl, le_rfl, hlast⟩
    · rw [if_neg hlast]
      have hne : c ≠ n + 1 := by
        rintro rfl
        exact hlast hc
      obtain ⟨d, hback, hd, hcomma⟩ := ih (by omega)
      exact ⟨d, hback, by omega, hcomma⟩

theorem exists_comma (h : ∀ e ∈ entries, e.WellFormed)
    (hlong : 11 < (joinedRanges entries).length) :
    ∃ c ≤ 11, (joinedRanges entries)[c]? = some 44 := by
  cases entries with
  | nil => exact absurd hlong (Nat.not_lt_zero 11)
  | cons e entries =>
    have hlength := text_length (h e (.head _))
    obtain ⟨rest, hjoined, hends⟩ := joinedRanges_cons e entries
    rw [hjoined] at hlong ⊢
    rcases hends with ⟨rfl, -⟩ | rfl
    · rw [List.append_nil] at hlong
      omega
    · refine ⟨e.text.length, hlength, ?_⟩
      rw [List.getElem?_append_right le_rfl, Nat.sub_self]
      rfl

theorem joinedRanges_take {c : ℕ} (hc : (joinedRanges entries)[c]? = some 44) :
    ∃ k, 0 < k ∧ k < entries.length ∧
      (joinedRanges entries).take c = joinedRanges (entries.take k) := by
  obtain ⟨k, hpos, hlt, htake⟩ := joined_take (by
    intro l hl
    obtain ⟨e, -, rfl⟩ := List.mem_map.mp hl
    exact comma_notMem_text) hc
  rw [List.length_map] at hlt
  refine ⟨k, hpos, hlt, ?_⟩
  rw [← List.map_take] at htake
  exact htake

/-- A list that is too long is cut off after some of its ranges, and these are read back. -/
theorem summarizeRanges_oversized (h : ∀ e ∈ accepts, e.WellFormed) (hnone : accepts ≠ [])
    (hevery : rejects ≠ []) (hover : Oversized accepts rejects) :
    ∃ k text, summarizeRanges accepts rejects = some text ∧
      parseShortPolicy text = some ⟨true, accepts.take k⟩ := by
  have hlength : (ascii "accept").length = 6 := by decide
  obtain ⟨c, hc, hcomma⟩ := exists_comma h (by
    have hlong := hover.2
    rw [hlength, maxExitpolicySummaryLen] at hlong
    omega)
  obtain ⟨d, hback, hle, hd⟩ :=
    commaBack_spec (n := maxExitpolicySummaryLen - (ascii "accept").length - 1) hcomma (by
      rw [hlength, maxExitpolicySummaryLen]
      omega)
  obtain ⟨k, hpos, -, htake⟩ := joinedRanges_take hd
  refine ⟨k, ascii "accept " ++ joinedRanges (accepts.take k), ?_, ?_⟩
  · rw [summarizeRanges, if_neg hnone, if_neg hevery]
    rw [if_pos hover, hback, Option.map_some, htake]
  · rw [parseShortPolicy_accept]
    apply parseShortPolicyEntries_joinedRanges
    · exact fun e he => h e (List.mem_of_mem_take he)
    · intro hnil
      rw [List.take_eq_nil_iff] at hnil
      exact hnil.elim (fun hzero => by omega) hnone
    · rw [← htake, List.length_take]
      omega

theorem summarizeRanges_shorter (haccepts : ∀ e ∈ accepts, e.WellFormed)
    (hrejects : ∀ e ∈ rejects, e.WellFormed) (hnone : accepts ≠ []) (hevery : rejects ≠ [])
    (hover : ¬Oversized accepts rejects) : ∃ text isAccept,
      summarizeRanges accepts rejects = some text ∧
      parseShortPolicy text = some ⟨isAccept, if isAccept then accepts else rejects⟩ := by
  have hlength : (ascii "accept").length = 6 ∧ (ascii "reject").length = 6 := by decide
  rw [summarizeRanges, if_neg hnone, if_neg hevery]
  rw [if_neg hover]
  rw [Oversized, hlength.1, hlength.2, maxExitpolicySummaryLen] at hover
  by_cases hshorter : (joinedRanges rejects).length < (joinedRanges accepts).length
  · refine ⟨_, false, if_pos hshorter, (parseShortPolicy_reject _).trans ?_⟩
    apply parseShortPolicyEntries_joinedRanges hrejects hevery
    rw [maxExitpolicySummaryLen]
    omega
  · refine ⟨_, true, if_neg hshorter, (parseShortPolicy_accept _).trans ?_⟩
    apply parseShortPolicyEntries_joinedRanges haccepts hnone
    rw [maxExitpolicySummaryLen]
    omega

theorem parseShortPolicyEntries_all (isAccept : Bool) :
    parseShortPolicyEntries isAccept (joinedRanges [⟨1, 65535⟩]) =
      some ⟨isAccept, [⟨1, 65535⟩]⟩ := by
  apply parseShortPolicyEntries_joinedRanges _ (by decide) (by decide)
  intro e he
  rw [List.mem_singleton.mp he]
  exact ⟨le_rfl, by decide, le_rfl⟩

theorem portIn_all (hport : 1 ≤ port) (hlt : port < 2 ^ 16) : PortIn port [⟨1, 65535⟩] :=
  ⟨_, .head _, hport, by dsimp only; omega⟩

/-- What is written is read back as the ports of the first list, unless it is cut off. -/
theorem summarizeRanges_spec (haccepts : ∀ e ∈ accepts, e.WellFormed)
    (hrejects : ∀ e ∈ rejects, e.WellFormed)
    (hparts : ∀ p, 1 ≤ p → p < 2 ^ 16 → (PortIn p rejects ↔ ¬PortIn p accepts)) :
    ∃ text policy, summarizeRanges accepts rejects = some text ∧
      parseShortPolicy text = some policy ∧
      ∀ p, 1 ≤ p → p < 2 ^ 16 → (policy.AcceptsPort p → PortIn p accepts) ∧
        (¬Oversized accepts rejects → PortIn p accepts → policy.AcceptsPort p) := by
  have hempty (p : ℕ) : ¬PortIn p [] := by simp [PortIn]
  by_cases hnone : accepts = []
  · subst hnone
    refine ⟨_, _, if_pos rfl, (parseShortPolicy_reject _).trans (parseShortPolicyEntries_all false),
      ?_⟩
    intro p hp hlt
    rw [acceptsPort_iff hp]
    simp [portIn_all hp hlt, hempty]
  by_cases hevery : rejects = []
  · subst hevery
    refine ⟨_, _, (if_neg hnone).trans (if_pos rfl),
      (parseShortPolicy_accept _).trans (parseShortPolicyEntries_all true), ?_⟩
    intro p hp hlt
    have hin : PortIn p accepts := not_not.mp (mt (hparts p hp hlt).mpr (hempty p))
    rw [acceptsPort_iff hp]
    simp [portIn_all hp hlt, hin]
  by_cases hover : Oversized accepts rejects
  · obtain ⟨k, text, htext, hparse⟩ :=
      summarizeRanges_oversized haccepts hnone hevery hover
    refine ⟨text, _, htext, hparse, fun p hp hlt => ⟨?_, fun hnot => absurd hover hnot⟩⟩
    rw [acceptsPort_iff hp]
    intro haccept
    obtain ⟨e, he, hports⟩ := haccept.mpr rfl
    exact ⟨e, List.mem_of_mem_take he, hports⟩
  · obtain ⟨text, isAccept, htext, hparse⟩ :=
      summarizeRanges_shorter haccepts hrejects hnone hevery hover
    refine ⟨text, _, htext, hparse, fun p hp hlt => ?_⟩
    rw [acceptsPort_iff hp]
    cases isAccept with
    | false => simp [hparts p hp hlt]
    | true => simp

end Parse

section Policy
variable {policy : List AddrPolicy} {family : Family} {summary : Summary} {f : ℕ → ℕ × Prop}

theorem ranges_wellFormed (h : Summarizes f 1 (2 ^ 16) summary) (accepted : Bool) :
    ∀ e ∈ summary.ranges accepted, e.WellFormed := by
  intro e he
  obtain ⟨r, hr, rfl⟩ := List.mem_map.mp he
  have hmem := (marks_of_summarizes h).mem (List.mem_filter.mp hr).1
  exact ⟨hmem.1, hmem.2.1, by omega⟩

/-- A policy has a summary, which is parsed, and accepts the ports that the rule accepts, but for
those that are cut off. -/
theorem policySummarize_meaning (hfamily : family ≠ .unspec)
    (hpolicy : ∀ e ∈ policy, e.WellFormed) (hlen : policy.length < 2 ^ 31) :
    ∃ text short, policySummarize policy family = some text ∧
      parseShortPolicy text = some short ∧
      (¬SummaryTruncated policy family → ∀ port, 1 ≤ port → port < 2 ^ 16 →
        (short.AcceptsPort port ↔ AcceptedPort policy family port)) ∧
      ∀ port, 1 ≤ port → port < 2 ^ 16 →
        short.AcceptsPort port → AcceptedPort policy family port := by
  obtain ⟨summary, hsummary, hspec⟩ := policySummary_spec hfamily hpolicy hlen
  have hports (p : ℕ) (hp : 1 ≤ p) (hlt : p < 2 ^ 16) := portIn_ranges hspec hp hlt
  obtain ⟨text, short, htext, hparse, haccepts⟩ := summarizeRanges_spec
    (ranges_wellFormed hspec true) (ranges_wellFormed hspec false) (by
      intro p hp hlt
      rw [(hports p hp hlt).1, (hports p hp hlt).2])
  have hrule (p : ℕ) (hp : 1 ≤ p) (hlt : p < 2 ^ 16) :
      PortIn p (summary.ranges true) ↔ AcceptedPort policy family p := (hports p hp hlt).1
  refine ⟨text, short, ?_, hparse, ?_, ?_⟩
  · rw [policySummarize, hsummary]
    exact htext
  · intro hwhole p hp hlt
    have hfits : ¬Oversized (summary.ranges true) (summary.ranges false) :=
      fun hover => hwhole ⟨summary, hsummary, hover⟩
    rw [← hrule p hp hlt]
    exact ⟨(haccepts p hp hlt).1, (haccepts p hp hlt).2 hfits⟩
  · intro p hp hlt haccept
    exact (hrule p hp hlt).mp ((haccepts p hp hlt).1 haccept)

end Policy

/-- Two networks of 2^25 addresses each are rejected for port 25, and then every address is accepted
for the ports up to 1000. -/
def mailRejected : List AddrPolicy :=
  [.ofPorts .reject 7 (.inet 0x40000000) 25 25,
    .ofPorts .reject 7 (.inet 0x42000000) 25 25,
    .ofPorts .accept 0 (.inet 0) 1 1000]

theorem policySummarize_meaning_mail :
    policySummarize mailRejected .inet = some (ascii "accept 1-24,26-1000") ∧
      ∃ text short, policySummarize mailRejected .inet = some text ∧
        parseShortPolicy text = some short ∧
        (¬SummaryTruncated mailRejected .inet → ∀ port, 1 ≤ port → port < 2 ^ 16 →
          (short.AcceptsPort port ↔ AcceptedPort mailRejected .inet port)) ∧
        ∀ port, 1 ≤ port → port < 2 ^ 16 →
          short.AcceptsPort port → AcceptedPort mailRejected .inet port := by
  have hpolicy : ∀ e ∈ mailRejected, e.WellFormed := by
    intro e he
    simp only [mailRejected, List.mem_cons, List.not_mem_nil, or_false] at he
    rcases he with rfl | rfl | rfl
    · exact ⟨by decide, by decide, fun _ => by decide⟩
    · exact ⟨by decide, by decide, fun _ => by decide⟩
    · exact ⟨by decide, by decide, fun _ => by decide⟩
  exact ⟨by decide +kernel, policySummarize_meaning (by decide) hpolicy (by decide)⟩

end TorDaemon.Policies
