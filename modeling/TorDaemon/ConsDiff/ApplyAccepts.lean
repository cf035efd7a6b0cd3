import TorDaemon.ConsDiff.ApplyExact

/-! Which scripts are accepted, and that no line outside of the base or of the script is read
(`consdiff.c`). -/
namespace TorDaemon.ConsDiff
open Library.NetworkOrder Library.LineEditor Library.Scanner

/-! ### Inside of the lists -/

section Inside
variable {cons1 diff cons2 : List Line} {i j len start rounds : ℕ} {ptr : Bytes} {line : Line}
  {err : ApplyError}

theorem parseRangeEnd_inside (h : parseRangeEnd len start ptr = .error err) : err ≠ .outside := by
  unfold parseRangeEnd at h
  split at h
  · split at h <;> cases h
    exact ApplyError.noConfusion
  · split at h
    · cases h
      exact ApplyError.noConfusion
    · split at h <;> cases h
      exact ApplyError.noConfusion
  · cases h

theorem parseAction_inside {c : UInt8} (h : parseAction c = .error err) : err ≠ .outside := by
  unfold parseAction at h
  split at h
  · cases h
  · split at h
    · cases h
    · split at h <;> cases h
      exact ApplyError.noConfusion

theorem checkAction_inside {start stop : ℤ} {hadRange endWasEof : Bool} {action : Action}
    (h : checkAction start stop hadRange endWasEof action = .error err) : err ≠ .outside := by
  unfold checkAction at h
  split at h
  · cases h
    exact ApplyError.noConfusion
  · split at h <;> cases h
    exact ApplyError.noConfusion

theorem checkedAction_inside {start stop : ℤ} {hadRange endWasEof : Bool} {c : UInt8}
    (h : (parseAction c).bind (checkAction start stop hadRange endWasEof) = .error err) :
    err ≠ .outside := by
  cases haction : parseAction c with
  | error err₁ =>
    rw [haction] at h
    cases h
    exact parseAction_inside haction
  | ok action =>
    rw [haction] at h
    exact checkAction_inside h

theorem parseCommand_inside {j : ℤ} (h : parseCommand len j line = .error err) :
    err ≠ .outside := by
  unfold parseCommand at h
  split at h
  · cases h
    exact ApplyError.noConfusion
  · split at h
    · cases h
      exact ApplyError.noConfusion
    · split at h
      · rename_i hrange
        cases h
        exact parseRangeEnd_inside hrange
      · split at h
        · cases h
          exact ApplyError.noConfusion
        · split at h
          · cases h
            exact ApplyError.noConfusion
          · exact checkedAction_inside h
          · cases h
            exact ApplyError.noConfusion

/-- A round reads its lines inside of the lists, and leaves its position inside of the base or
before it. -/
theorem applyCommand_inside (cons2 : List Line) (hi : i < diff.length) (hj : j ≤ cons1.length) :
    applyCommand cons1 diff i j cons2 ≠ .error .outside ∧
      ∀ r, applyCommand cons1 diff i j cons2 = .ok r →
        r.2.1 = -1 ∨ ∃ j₁ : ℕ, r.2.1 = j₁ ∧ j₁ ≤ cons1.length := by
  cases hparse : parseCommand cons1.length j (diff.get ⟨i, hi⟩) with
  | error err =>
    rw [applyCommand_error hi hparse]
    exact ⟨fun h => parseCommand_inside hparse (Except.error.inj h), by rintro r ⟨⟩⟩
  | ok cmd =>
    obtain ⟨s, first, last, hparsed⟩ := parseCommand_eq_ok hparse
    have hordered := hparsed.ordered
    have hleft : rangeEnd cons1.length last ≤ j := Int.ofNat_le.mp hparsed.left
    have hremoved : afterRemoved first = -1 ∨
        ∃ j₁ : ℕ, afterRemoved first = j₁ ∧ j₁ ≤ cons1.length := by
      by_cases hfirst : first = 0
      · exact .inl (if_pos hfirst)
      · exact .inr ⟨first - 1, if_neg hfirst, by omega⟩
    by_cases hd : cmd.action = .d
    · rw [applyCommand_delete hi hj hparsed hparse hd]
      refine ⟨nofun, ?_⟩
      rintro r ⟨⟩
      exact hremoved
    · rw [applyCommand_text hi hj hparsed hparse hd]
      rcases addText_cases diff
          (cons2 ++ ((cons1.take j).drop (rangeEnd cons1.length last)).reverse) i with
        ⟨text, rest, hdrop, htext, hne⟩ | herr | herr
      · rw [addText_eq_ok hdrop htext hne]
        refine ⟨nofun, ?_⟩
        rintro r ⟨⟩
        by_cases ha : cmd.action = .a
        · right
          exact ⟨rangeEnd cons1.length last, if_pos ha, by omega⟩
        · rcases hremoved with hnone | ⟨j₁, hj₁, hle⟩
          · exact .inl ((if_neg ha).trans hnone)
          · exact .inr ⟨j₁, (if_neg ha).trans hj₁, hle⟩
      · rw [herr]
        exact ⟨nofun, nofun⟩
      · rw [herr]
        exact ⟨nofun, nofun⟩

theorem applyCommands_inside (diff cons2 : List Line) (i rounds : ℕ) {j : ℤ}
    (hj : j = -1 ∨ ∃ j₁ : ℕ, j = j₁ ∧ j₁ ≤ cons1.length) :
    applyCommands cons1 diff rounds i j cons2 ≠ .error .outside ∧
      ∀ r, applyCommands cons1 diff rounds i j cons2 = .ok r →
        r.1 = -1 ∨ ∃ j₁ : ℕ, r.1 = j₁ ∧ j₁ ≤ cons1.length := by
  induction rounds generalizing i j cons2 with
  | zero =>
    refine ⟨by rintro ⟨⟩, ?_⟩
    rintro r ⟨⟩
    exact hj
  | succ rounds ih =>
    rw [applyCommands]
    by_cases hi : i < diff.length
    · rw [if_pos hi]
      rcases hj with rfl | ⟨j₁, rfl, hle⟩
      · -- No command is accepted any more.
        cases hparse : parseCommand cons1.length (-1) (diff.get ⟨i, hi⟩) with
        | error err =>
          rw [applyCommand_error hi hparse]
          exact ⟨fun h => parseCommand_inside hparse (Except.error.inj h), by rintro r ⟨⟩⟩
        | ok cmd =>
          obtain ⟨s, first, last, hparsed⟩ := parseCommand_eq_ok hparse
          have := hparsed.left
          omega
      · obtain ⟨hinside, hnext⟩ := applyCommand_inside cons2 hi hle
        cases hround : applyCommand cons1 diff i j₁ cons2 with
        | error err =>
          rw [hround] at hinside
          exact ⟨fun h => hinside (congrArg Except.error (Except.error.inj h)), by rintro r ⟨⟩⟩
        | ok r => exact ih r.2.2 r.1 (hnext r hround)
    · rw [if_neg hi]
      refine ⟨by rintro ⟨⟩, ?_⟩
      rintro r ⟨⟩
      exact hj

theorem applyEdDiff_inside : applyEdDiff cons1 diff start ≠ .error .outside := by
  obtain ⟨hinside, hnext⟩ := applyCommands_inside diff [] start (diff.length - start)
    (.inr ⟨cons1.length, rfl, le_rfl⟩)
  unfold applyEdDiff
  cases hrun : applyCommands cons1 diff (diff.length - start) start cons1.length [] with
  | error err =>
    rw [hrun] at hinside
    exact fun h => hinside (congrArg Except.error (Except.error.inj h))
  | ok r =>
    change (addUnchangedFrom cons1 0 r.1 r.2).bind _ ≠ _
    rcases hnext r hrun with hnone | ⟨j₁, hj₁, hle⟩
    · rw [hnone]
      exact nofun
    · rw [hj₁, addRemaining_eq hle]
      exact nofun

end Inside

/-! ### The scripts that are accepted -/

section Accepted
variable {cons1 diff cons2 script text rest : List Line} {i n m j len first limit rounds : ℕ}
  {s : Bytes} {line : Line} {last : Address} {action : Action}

/-- The addresses of the minimal format: a range has two lines at least. -/
inductive MinimalAddresses (len : ℕ) : Bytes → ℕ → Address → Prop
  | one {s : Bytes} {n : ℕ} : Numeral s n → MinimalAddresses len s n (.line n)
  | range {s t : Bytes} {n m : ℕ} :
      Numeral s n → Numeral t m → n < m → MinimalAddresses len (s ++ 44 :: t) n (.line m)
  | toEnd {s : Bytes} {n : ℕ} : Numeral s n → n < len → MinimalAddresses len (s ++ [44, 36]) n .dollar

/-- A script for a base of `len` lines, each range inside of the base and before the range of the
command above it: `$` is for deletions, no command is of line 0 but `a`, and no text is empty. -/
inductive Minimal (len : ℕ) : ℕ → List Line → Prop
  | nil {limit : ℕ} : Minimal len limit []
  | append {limit n : ℕ} {s : Bytes} {text rest : List Line} : Numeral s n → n < limit →
      s.length < 127 → text ≠ [] → (∀ t ∈ text, t ≠ [46]) → Minimal len n rest →
      Minimal len limit ((s ++ [97]) :: (text ++ [46] :: rest))
  | change {limit first : ℕ} {last : Address} {s : Bytes} {text rest : List Line} :
      MinimalAddresses len s first last → last ≠ .dollar → 1 ≤ first → rangeEnd len last < limit →
      s.length < 127 → text ≠ [] → (∀ t ∈ text, t ≠ [46]) → Minimal len first rest →
      Minimal len limit ((s ++ [99]) :: (text ++ [46] :: rest))
  | delete {limit first : ℕ} {last : Address} {s : Bytes} {rest : List Line} :
      MinimalAddresses len s first last → 1 ≤ first → rangeEnd len last < limit →
      s.length < 127 → Minimal len first rest →
      Minimal len limit ((s ++ [100]) :: rest)

theorem cString_eq (h : ∀ x ∈ line, x ≠ 0) : cString line = line := by
  rw [cString, List.takeWhile_eq_self_iff]
  exact fun x hx => decide_eq_true (h x hx)

theorem letter_not_digit (action : Action) : torIsdigit action.letter = false := by
  cases action <;> rfl

theorem parseAction_letter (action : Action) : parseAction action.letter = .ok action := by
  cases action <;> rfl

theorem digit_ne_zero {x : UInt8} (h : torIsdigit x = true) : x ≠ 0 := by
  rintro rfl
  exact Bool.noConfusion h

theorem Numeral.ne_zero (h : Numeral s n) : ∀ x ∈ s, x ≠ 0 :=
  fun x hx => digit_ne_zero (h.2.1 x hx)

theorem MinimalAddresses.ne_zero (h : MinimalAddresses len s first last) : ∀ x ∈ s, x ≠ 0 := by
  intro x hx
  have hrest : (44 : UInt8) ≠ 0 ∧ (36 : UInt8) ≠ 0 := by decide
  cases h with
  | one hn => exact hn.ne_zero x hx
  | range hn hm _ =>
    rcases List.mem_append.mp hx with hx | hx
    · exact hn.ne_zero x hx
    · rcases List.mem_cons.mp hx with rfl | hx
      · exact hrest.1
      · exact hm.ne_zero x hx
  | toEnd hn _ =>
    rcases List.mem_append.mp hx with hx | hx
    · exact hn.ne_zero x hx
    · rcases List.mem_pair.mp hx with rfl | rfl
      · exact hrest.1
      · exact hrest.2

theorem MinimalAddresses.ordered (h : MinimalAddresses len s first last) :
    first ≤ rangeEnd len last := by
  cases h with
  | one _ => exact le_rfl
  | range _ _ hlt => exact hlt.le
  | toEnd _ hlt => exact hlt.le

theorem checkAction_of {start stop : ℤ} {hadRange endWasEof : Bool}
    (heof : endWasEof = true → action = .d) (hrange : hadRange = true → action ≠ .a) :
    checkAction start stop hadRange endWasEof action = .ok ⟨start, stop, action⟩ := by
  have hd : ¬ (endWasEof = true ∧ action ≠ .d) := fun h => h.2 (heof h.1)
  have ha : ¬ (hadRange = true ∧ action = .a) := fun h => hrange h.1 h.2
  rw [checkAction, if_neg hd, if_neg ha]

/-- The steps of `parseCommand` on a line that passes its checks. -/
theorem parseCommand_of {ptr : Bytes} {stop j : ℤ} {hadRange endWasEof : Bool} {start : ℕ}
    (hnul : ∀ x ∈ s, x ≠ 0) (hlen : s.length < 127)
    (hnum : getLinenum (s ++ [action.letter]) = some (start, ptr))
    (hstop : parseRangeEnd len start ptr = .ok (stop, hadRange, endWasEof, [action.letter]))
    (hj : stop ≤ j) (heof : endWasEof = true → action = .d)
    (hrange : hadRange = true → action ≠ .a) :
    parseCommand len j (s ++ [action.letter]) = .ok ⟨start, stop, action⟩ := by
  have hline : ∀ x ∈ s ++ [action.letter], x ≠ 0 := by
    intro x hx
    rcases List.mem_append.mp hx with hx | hx
    · exact hnul x hx
    · rw [List.mem_singleton.mp hx]
      cases action <;> decide
  have hshort : ¬ 127 < (s ++ [action.letter]).length := by
    rw [List.length_append, List.length_singleton]
    omega
  rw [parseCommand, if_neg hshort, cString_eq hline, hnum]
  dsimp only
  rw [hstop]
  dsimp only
  rw [if_neg (not_lt.mpr hj), parseAction_letter]
  exact checkAction_of heof hrange

theorem parseRangeEnd_range {t : Bytes} (ht : Numeral t m) (hm : m ≤ 2147483647) (hlt : n < m) :
    parseRangeEnd len n (44 :: (t ++ [action.letter])) = .ok (m, true, false, [action.letter]) := by
  have hletter : ∀ x ∈ [action.letter].head?, torIsdigit x = false := by
    rintro x ⟨⟩
    exact letter_not_digit action
  have hread := getLinenum_numeral ht hm hletter
  cases t with
  | nil => exact absurd rfl ht.1
  | cons x t =>
    have hdollar : x ≠ 36 := by
      rintro rfl
      exact Bool.noConfusion (ht.2.1 36 List.mem_cons_self)
    rw [parseRangeEnd]
    · rw [hread]
      exact if_neg (not_le.mpr hlt)
    · exact fun ptr heq => hdollar (List.cons.inj heq).1

section
variable (h : MinimalAddresses len s first last)
include h

theorem parseCommand_minimal {j : ℤ}
    (hle : rangeEnd len last ≤ 2147483647) (hj : (rangeEnd len last : ℤ) ≤ j)
    (hlen : s.length < 127) (ha : action = .a → last = .line first ∧ Numeral s first)
    (hd : last = .dollar → action = .d) :
    parseCommand len j (s ++ [action.letter]) = .ok ⟨first, rangeEnd len last, action⟩ := by
  have hfirst := h.ordered.trans hle
  have hcomma : ∀ (t : Bytes), ∀ x ∈ (44 :: t).head?, torIsdigit x = false := by
    rintro t x ⟨⟩
    rfl
  have hnul := h.ne_zero
  cases h with
  | one hn =>
    have hletter : ∀ x ∈ [action.letter].head?, torIsdigit x = false := by
      rintro x ⟨⟩
      exact letter_not_digit action
    have hstop : parseRangeEnd len first [action.letter] =
        .ok ((first : ℤ), false, false, [action.letter]) := by
      cases action <;> rfl
    exact parseCommand_of hnul hlen (getLinenum_numeral hn hfirst hletter) hstop hj nofun nofun
  | @range s t n m hn hm hlt =>
    have hnum : getLinenum (s ++ 44 :: t ++ [action.letter]) =
        some (first, 44 :: (t ++ [action.letter])) := by
      rw [List.append_assoc, List.cons_append]
      exact getLinenum_numeral hn hfirst (hcomma _)
    apply parseCommand_of hnul hlen hnum (parseRangeEnd_range hm hle hlt) hj nofun
    intro _ hact
    have hcomma := (ha hact).2.2.1 44 (List.mem_append_right _ List.mem_cons_self)
    exact Bool.noConfusion hcomma
  | @toEnd s n hn hlt =>
    have hnum : getLinenum (s ++ [44, 36] ++ [action.letter]) =
        some (first, 44 :: 36 :: [action.letter]) := by
      rw [List.append_assoc, List.cons_append]
      exact getLinenum_numeral hn hfirst (hcomma _)
    have hstop : parseRangeEnd len first (44 :: 36 :: [action.letter]) =
        .ok (len, true, true, [action.letter]) := by
      have : ¬ (len : ℤ) ≤ first := by omega
      exact if_neg this
    apply parseCommand_of hnul hlen hnum hstop hj (fun _ => hd rfl)
    intro _ hact
    rw [hd rfl] at hact
    exact Action.noConfusion hact

theorem MinimalAddresses.addresses : Addresses s first last := by
  cases h with
  | one hn => exact .one hn
  | range hn hm _ => exact .range hn hm
  | toEnd hn _ => exact .toEnd hn

theorem parsed_minimal (hj : rangeEnd len last ≤ j)
    (ha : action = .a → last = .line first ∧ Numeral s first) (hd : last = .dollar → action = .d) :
    Parsed len j (s ++ [action.letter]) ⟨first, rangeEnd len last, action⟩ s first last := by
  constructor
  · exact h.addresses
  · apply cString_eq
    intro x hx
    rcases List.mem_append.mp hx with hx | hx
    · exact h.ne_zero x hx
    · rw [List.mem_singleton.mp hx]
      cases action <;> decide
  · rfl
  · rfl
  · exact h.ordered
  · exact Int.ofNat_le.mpr hj
  · exact fun hact => ⟨(ha hact).2, (ha hact).1⟩
  · rintro hact rfl
    have hc : action = .c := hact
    rw [hd rfl] at hc
    exact Action.noConfusion hc

end

theorem applyCommand_minimal (cons2 text rest : List Line) (action : Action)
    (hsize : cons1.length ≤ 2147483647) (hj : j ≤ cons1.length)
    (hdrop : diff.drop i = (s ++ [action.letter]) :: script)
    (h : MinimalAddresses cons1.length s first last) (hleft : rangeEnd cons1.length last ≤ j)
    (hlen : s.length < 127) (ha : action = .a → last = .line first ∧ Numeral s first)
    (hd : last = .dollar → action = .d)
    (hscript : action ≠ .d → script = text ++ [46] :: rest ∧ (∀ t ∈ text, t ≠ [46]) ∧ text ≠ []) :
    i < diff.length ∧ ∃ cons2', applyCommand cons1 diff i j cons2 =
      .ok (if action = .d then i + 1 else i + 1 + text.length + 1,
        if action = .a then (first : ℤ) else afterRemoved first, cons2') := by
  have hi : i < diff.length := by
    by_contra hi
    rw [List.drop_of_length_le (not_lt.mp hi)] at hdrop
    cases hdrop
  rw [drop_eq_cons hi] at hdrop
  obtain ⟨hline, hrest⟩ := List.cons.inj hdrop
  have hparse := parseCommand_minimal h (by omega) (Int.ofNat_le.mpr hleft) hlen ha hd
  have hparsed := parsed_minimal h hleft ha hd
  rw [← hline] at hparse hparsed
  refine ⟨hi, ?_⟩
  by_cases hact : action = .d
  · rw [applyCommand_delete hi hj hparsed hparse hact, if_pos hact, if_neg]
    · exact ⟨_, rfl⟩
    · rw [hact]
      exact Action.noConfusion
  · obtain ⟨hscript, htext, hne⟩ := hscript hact
    rw [hscript] at hrest
    rw [applyCommand_text hi hj hparsed hparse hact, addText_eq_ok hrest htext hne, if_neg hact]
    refine ⟨_, congrArg Except.ok (Prod.ext rfl (Prod.ext ?_ rfl))⟩
    by_cases haction : action = .a
    · rw [if_pos haction, if_pos haction, (ha haction).1]
      rfl
    · rw [if_neg haction, if_neg haction]

theorem drop_after_line (hdrop : diff.drop i = line :: rest) : diff.drop (i + 1) = rest := by
  rw [← List.tail_drop, hdrop, List.tail_cons]

theorem applyCommands_minimal (cons2 : List Line) (hsize : cons1.length ≤ 2147483647)
    (hj : j ≤ cons1.length) (hlimit : limit ≤ j + 1) (hrounds : diff.length ≤ i + rounds)
    (h : Minimal cons1.length limit script) (hdrop : diff.drop i = script) :
    ∃ (k : ℕ) (cons2' : List Line), k ≤ cons1.length ∧
      applyCommands cons1 diff rounds i j cons2 = .ok (k, cons2') := by
  induction h generalizing i j cons2 rounds with
  | nil =>
    have hi := List.drop_eq_nil_iff.mp hdrop
    refine ⟨j, cons2, hj, ?_⟩
    cases rounds with
    | zero => rfl
    | succ rounds => rw [applyCommands, if_neg (not_lt.mpr hi)]
  | @append limit n s text rest hn hlt hlen hne htext _ ih =>
    have hle : n ≤ j := by omega
    obtain ⟨hi, cons2₁, hround⟩ := applyCommand_minimal cons2 text rest .a hsize hj hdrop
      (.one hn) hle hlen (fun _ => ⟨rfl, hn⟩) (by simp) (fun _ => ⟨rfl, htext, hne⟩)
    obtain ⟨rounds, rfl⟩ : ∃ k, rounds = k + 1 := ⟨rounds - 1, by omega⟩
    rw [applyCommands, if_pos hi, hround]
    change ∃ k cons2', _ ∧ applyCommands cons1 diff rounds (i + 1 + text.length + 1) n cons2₁ = _
    exact ih cons2₁ (by omega) (by omega) (by omega) (drop_after_text (drop_after_line hdrop))
  | @change limit first last s text rest haddr hlast hfirst hlt hlen hne htext _ ih =>
    have hle : rangeEnd cons1.length last ≤ j := by omega
    have hordered := haddr.ordered
    have hnext : afterRemoved first = (first - 1 : ℕ) := if_neg (by omega)
    obtain ⟨hi, cons2₁, hround⟩ := applyCommand_minimal cons2 text rest .c hsize hj hdrop
      haddr hle hlen (by simp) (fun heq => absurd heq hlast) (fun _ => ⟨rfl, htext, hne⟩)
    obtain ⟨rounds, rfl⟩ : ∃ k, rounds = k + 1 := ⟨rounds - 1, by omega⟩
    rw [applyCommands, if_pos hi, hround]
    change ∃ k cons2', _ ∧ applyCommands cons1 diff rounds (i + 1 + text.length + 1)
      (afterRemoved first) cons2₁ = _
    rw [hnext]
    exact ih cons2₁ (by omega) (by omega) (by omega) (drop_after_text (drop_after_line hdrop))
  | @delete limit first last s rest haddr hfirst hlt hlen _ ih =>
    have hle : rangeEnd cons1.length last ≤ j := by omega
    have hordered := haddr.ordered
    have hnext : afterRemoved first = (first - 1 : ℕ) := if_neg (by omega)
    obtain ⟨hi, cons2₁, hround⟩ := applyCommand_minimal cons2 [] [] .d hsize hj hdrop
      haddr hle hlen (by simp) (fun _ => rfl) (fun hd => absurd rfl hd)
    obtain ⟨rounds, rfl⟩ : ∃ k, rounds = k + 1 := ⟨rounds - 1, by omega⟩
    rw [applyCommands, if_pos hi, hround]
    change ∃ k cons2', _ ∧ applyCommands cons1 diff rounds (i + 1) (afterRemoved first) cons2₁ = _
    rw [hnext]
    exact ih cons2₁ (by omega) (by omega) (by omega) (drop_after_line hdrop)

theorem applyEdDiff_minimal {start : ℕ} (hsize : cons1.length ≤ 2147483647)
    (h : Minimal cons1.length (cons1.length + 1) (diff.drop start)) :
    ∃ doc, applyEdDiff cons1 diff start = .ok doc := by
  obtain ⟨k, cons2', hle, hrun⟩ := applyCommands_minimal [] hsize le_rfl le_rfl
    (show diff.length ≤ start + (diff.length - start) by omega) h rfl
  refine ⟨(cons2' ++ (cons1.take k).reverse).reverse, ?_⟩
  rw [applyEdDiff, hrun]
  change (addUnchangedFrom cons1 0 k cons2').bind _ = _
  rw [addRemaining_eq hle]
  rfl

/-- Refusal by the format: a range of one line is written as one address. -/
theorem single_line_range_refused :
    ¬ ∀ (cons1 : List Line) (line : Line) (cmd : Command Line) (doc : List Line),
      Reads [line] [cmd] → cmd.execute cons1 = some doc →
        ∃ doc', applyEdDiff cons1 [line] 0 = .ok doc' := by
  intro h
  have hone : Numeral [49] 1 := ⟨List.cons_ne_nil _ _, List.forall_mem_singleton.mpr rfl, rfl⟩
  have hreads : Reads [[49, 44, 49, 100]] [.delete 1 (.line 1)] :=
    .delete (.range hone hone) (by decide +kernel) .nil
  obtain ⟨doc', hdoc⟩ := h [[65]] [49, 44, 49, 100] (.delete 1 (.line 1)) [] hreads rfl
  have hrefused : applyEdDiff [[65]] [[49, 44, 49, 100]] 0 = .error .invalidRange := by
    decide +kernel
  rw [hrefused] at hdoc
  cases hdoc

/-- A diff that is accepted gives what a line editor makes of its commands, the scripts of the
minimal format are accepted, and no line outside of the base or of the script is read. -/
theorem applyEdDiff_edits (cons1 diff : List Line) (start : ℕ) :
    (∀ doc, applyEdDiff cons1 diff start = .ok doc → ∃! cmds, Reads (diff.drop start) cmds ∧
      (Proper cons1.length false cmds → executeAll cmds cons1 = some doc)) ∧
    (cons1.length ≤ 2147483647 → Minimal cons1.length (cons1.length + 1) (diff.drop start) →
      ∃ doc, applyEdDiff cons1 diff start = .ok doc) ∧
    applyEdDiff cons1 diff start ≠ .error .outside := by
  refine ⟨fun doc h => ?_, fun hsize h => applyEdDiff_minimal hsize h, applyEdDiff_inside⟩
  obtain ⟨cmds, hreads, hexec⟩ := applyEdDiff_reads h
  exact ⟨cmds, ⟨hreads, hexec⟩, fun _ hother => hother.1.unique hreads⟩

/-- What is not `Proper`: `0,2d`, where an editor has no line 0 to delete, and `2a`, `x`, `.`,
`1,$d`, where its `$` is the line that was appended. -/
theorem applyEdDiff_improper : (Reads [[48, 44, 50, 100]] [.delete 0 (.line 2)] ∧
      applyEdDiff [[65], [66]] [[48, 44, 50, 100]] 0 = .ok [] ∧
      executeAll [.delete 0 (.line 2)] [[65], [66]] = (none : Option (List Line))) ∧
    (Reads [[50, 97], [120], [46], [49, 44, 36, 100]] [.append 2 [[120]], .delete 1 .dollar] ∧
      applyEdDiff [[65], [66]] [[50, 97], [120], [46], [49, 44, 36, 100]] 0 = .ok [[120]] ∧
      executeAll [.append 2 [[120]], .delete 1 .dollar] [[65], [66]] = some ([] : List Line)) := by
  have hnumeral (d : UInt8) (n : ℕ) (hd : torIsdigit d = true) (hn : SharedRandom.decimal [d] = n) :
      Numeral [d] n := ⟨List.cons_ne_nil _ _, List.forall_mem_singleton.mpr hd, hn⟩
  have hzero := hnumeral 48 0 rfl rfl
  have hone := hnumeral 49 1 rfl rfl
  have htwo := hnumeral 50 2 rfl rfl
  have hdollar : Reads [[49, 44, 36, 100]] [.delete 1 .dollar] :=
    .delete (.toEnd hone) (by decide +kernel) .nil
  have happend : Reads ([50, 97] :: ([[120]] ++ [46] :: [[49, 44, 36, 100]]))
      [.append 2 [[120]], .delete 1 .dollar] :=
    .append htwo (by decide +kernel) (by decide +kernel) hdollar
  refine ⟨⟨.delete (.range hzero htwo) (by decide +kernel) .nil, ?_, rfl⟩, happend, ?_, rfl⟩
  · decide +kernel
  · decide +kernel

end Accepted

end TorDaemon.ConsDiff
