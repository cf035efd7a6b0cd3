import TorDaemon.Net.InetPton

/-! What the loop over the words reads, and the words that are left after it. -/
namespace TorDaemon.Net
open Library.NetworkOrder Library.Scanner Library.Separated
open SharedRandom (isDigit)

section Reads
variable {i p : ℕ} {gap gap' : Option ℕ} {l r s : Bytes} {ls rs ws : List UInt16}

/-- The last group, unless a colon is the end. -/
inductive MaybeGroup : Bytes → List UInt16 → Prop
  | none : MaybeGroup [] []
  | group {g : Bytes} {w : UInt16} (hg : HexGroup g w) : MaybeGroup g [w]

/-- Groups with colons between them and perhaps after them. -/
abbrev Pieces : Bytes → List UInt16 → Prop := Joined HexGroup 58 MaybeGroup

/-- No groups, or some, before two colons. -/
abbrev Left (l : Bytes) (ls : List UInt16) : Prop := l = [] ∧ ls = [] ∨ Groups l ls

theorem reads_of_pieces (h : Pieces s ws) (hi : i + ws.length ≤ 8) (gap : Option ℕ) :
    Reads i gap s ws gap := by
  induction h generalizing i with
  | last hlast =>
    cases hlast with
    | none => exact .done
    | group hg =>
      rw [List.length_singleton] at hi
      exact .last (by omega) hg
  | cons hg hs ih =>
    rw [List.length_cons] at hi
    exact .group (by omega) hg (ih (by omega))

theorem pieces_of_reads (h : Reads i (some p) s ws gap') (hi : i ≤ 8) :
    gap' = some p ∧ Pieces s ws ∧ i + ws.length ≤ 8 := by
  generalize hgap : some p = gap at h
  induction h with
  | done => exact ⟨rfl, .last .none, hi⟩
  | last hseven hg => exact ⟨rfl, .last (.group hg), Nat.succ_le_succ hseven⟩
  | group hi hg hs ih =>
    obtain ⟨hgap', hpieces, hlen⟩ := ih (by omega) hgap
    refine ⟨hgap', .cons hg hpieces, ?_⟩
    rw [List.length_cons]
    omega
  | colon => cases hgap
  | colons => cases hgap

theorem groups_of_ended (h : Ended HexGroup 58 s ws) (hne : ws ≠ []) :
    ∃ l, s = l ++ [58] ∧ Groups l ws := by
  induction h with
  | nil => exact absurd rfl hne
  | @cons g s w ws hg hs ih =>
    cases ws with
    | nil =>
      cases hs
      exact ⟨g, rfl, .last (.group hg)⟩
    | cons w' ws =>
      obtain ⟨l, rfl, hl⟩ := ih (List.cons_ne_nil w' ws)
      refine ⟨g ++ 58 :: l, ?_, .cons hg hl⟩
      rw [List.append_assoc, List.cons_append]

theorem reads_of_left (hl : Left l ls) (hr : Pieces r rs) (hlen : ls.length + rs.length < 8) :
    Reads 0 none (l ++ 58 :: 58 :: r) (ls ++ rs) (some ls.length) := by
  rcases hl with ⟨rfl, rfl⟩ | hl
  · exact .colons (reads_of_pieces hr (by omega) _)
  · suffices h : ∀ i, i + ls.length + rs.length < 8 →
        Reads i none (l ++ 58 :: 58 :: r) (ls ++ rs) (some (i + ls.length)) by
      have hzero := h 0 (by omega)
      rwa [Nat.zero_add] at hzero
    induction hl with
    | last hlast =>
      intro i hi
      cases hlast with
      | group hg =>
        rw [List.length_singleton] at hi ⊢
        exact .group (by omega) hg
          (.colon (by omega) (by omega) (reads_of_pieces hr (by omega) _))
    | @cons g s w ws hg hs ih =>
      intro i hi
      rw [List.length_cons] at hi hlen
      have htail := ih (by omega) (i + 1) (by omega)
      rw [show i + 1 + ws.length = i + (w :: ws).length by rw [List.length_cons]; omega] at htail
      rw [List.append_assoc, List.cons_append, List.cons_append]
      exact .group (by omega) hg htail

theorem ended_of_reads (h : Reads i none s ws gap') (hi : i ≤ 8) :
    gap' = none ∧ Pieces s ws ∧ i + ws.length ≤ 8 ∨
      (∃ l ls r rs, s = l ++ 58 :: r ∧ ws = ls ++ rs ∧ Ended HexGroup 58 l ls ∧ Pieces r rs ∧
        gap' = some (i + ls.length) ∧ 0 < i + ls.length ∧ i + ws.length ≤ 8) ∨
      i = 0 ∧ ∃ r, s = 58 :: 58 :: r ∧ Pieces r ws ∧ gap' = some 0 ∧ ws.length ≤ 8 := by
  generalize hgap : none = gap at h
  induction h with
  | done => exact .inl ⟨rfl, .last .none, hi⟩
  | last hseven hg => exact .inl ⟨rfl, .last (.group hg), Nat.succ_le_succ hseven⟩
  | @group i gap gap' g s w ws hi hg hs ih =>
    rcases ih (by omega) hgap with ⟨hgap', hpieces, hlen⟩ |
      ⟨l, ls, r, rs, rfl, rfl, hl, hr, hgap', hpos, hlen⟩ | ⟨hzero, -⟩
    · left
      refine ⟨hgap', .cons hg hpieces, ?_⟩
      rw [List.length_cons]
      omega
    · right
      left
      refine ⟨g ++ 58 :: l, w :: ls, r, rs, ?_, rfl, .cons hg hl, hr, ?_, ?_, ?_⟩
      · rw [List.append_assoc, List.cons_append]
      · rw [hgap', List.length_cons]
        congr 1
        omega
      · rw [List.length_cons]
        omega
      · rw [List.length_cons]
        omega
    · omega
  | @colon i gap' s ws hi hpos hs ih =>
    obtain ⟨hgap', hpieces, hlen⟩ := pieces_of_reads hs (by omega)
    exact .inr (.inl ⟨[], [], s, ws, rfl, rfl, .nil, hpieces, hgap', hpos, hlen⟩)
  | @colons gap' s ws hs ih =>
    obtain ⟨hgap', hpieces, hlen⟩ := pieces_of_reads hs (by omega)
    exact .inr (.inr ⟨rfl, s, rfl, hpieces, hgap', by omega⟩)

/-- From the front there are pieces only, or two colons between them. -/
theorem parts_of_reads (h : Reads 0 none s ws gap') : gap' = none ∧ Pieces s ws ∧ ws.length ≤ 8 ∨
      ∃ l ls r rs, s = l ++ 58 :: 58 :: r ∧ ws = ls ++ rs ∧ Left l ls ∧ Pieces r rs ∧
        gap' = some ls.length ∧ ws.length ≤ 8 := by
  rcases ended_of_reads h (by omega) with ⟨hgap', hpieces, hlen⟩ |
    ⟨l, ls, r, rs, rfl, rfl, hl, hr, hgap', hpos, hlen⟩ | ⟨-, r, rfl, hr, hgap', hlen⟩
  · exact .inl ⟨hgap', hpieces, by omega⟩
  · right
    obtain ⟨l, rfl, hgroups⟩ := groups_of_ended hl (List.ne_nil_of_length_pos (by omega))
    refine ⟨l, ls, r, rs, ?_, rfl, .inr hgroups, hr, ?_, by omega⟩
    · rw [List.append_assoc, List.singleton_append]
    · rw [hgap', Nat.zero_add]
  · exact .inr ⟨[], [], r, ws, rfl, rfl, .inl ⟨rfl, rfl⟩, hr, hgap', hlen⟩

end Reads

section Fill
variable {l r : Bytes} {ls rs ws words init : List UInt16} {hasQuad : Bool}

/-- How many words are set before the loop. -/
def quadWords (hasQuad : Bool) : ℕ := if hasQuad then 2 else 0

theorem setFrom_eq (pre : List UInt16) (hlen : ws.length ≤ init.length) :
    setFrom (pre ++ init) pre.length ws = pre ++ ws ++ init.drop ws.length := by
  induction ws generalizing pre init with
  | nil => simp [setFrom]
  | cons w ws ih =>
    cases init with
    | nil => exact absurd hlen (Nat.not_succ_le_zero _)
    | cons v init =>
      have hset : (pre ++ v :: init).set pre.length w = pre ++ [w] ++ init := by
        rw [List.set_append_right _ _ (Nat.le_refl _), Nat.sub_self, List.set_cons_zero,
          List.append_assoc, List.singleton_append]
      have htail := ih (pre ++ [w]) (Nat.le_of_succ_le_succ hlen)
      rw [List.length_append, List.length_singleton] at htail
      rw [setFrom, hset, htail, List.length_cons, List.drop_succ_cons, List.append_assoc pre [w] ws,
        List.singleton_append]

/-- The words up to the gap stay, and those after it are moved to the end. -/
theorem memset_memmove {α : Type} (l r spare rest : List α) (a : α) :
    memset (memmove (l ++ r ++ spare ++ rest) (l.length + spare.length) l.length r.length)
        l.length a spare.length =
      l ++ List.replicate spare.length a ++ r ++ rest := by
  have hmiddle : ((l ++ r ++ spare ++ rest).drop l.length).take r.length = r := by
    rw [List.append_assoc, List.append_assoc, List.drop_left, List.take_left]
  have hend : (l ++ r ++ spare ++ rest).drop (l.length + spare.length + r.length) = rest := by
    have hlength : l.length + spare.length + r.length = (l ++ r ++ spare).length := by
      simp only [List.length_append]
      omega
    rw [hlength, List.drop_left]
  have hfront : (l ++ r ++ spare ++ rest).take (l.length + spare.length) =
      l ++ (r ++ spare ++ rest).take spare.length := by
    rw [List.append_assoc, List.append_assoc, ← List.append_assoc r, List.take_length_add_append]
  have hlength : (l ++ (r ++ spare ++ rest).take spare.length).length = l.length + spare.length := by
    simp only [List.length_append, List.length_take]
    omega
  have hmoved : memmove (l ++ r ++ spare ++ rest) (l.length + spare.length) l.length r.length =
      l ++ (r ++ spare ++ rest).take spare.length ++ (r ++ rest) := by
    rw [memmove, hmiddle, hend, hfront, List.append_assoc]
  rw [memset, hmoved, ← hlength, List.drop_left, List.append_assoc l, List.take_left]
  simp

theorem fillGap_full (src : Bytes) (i : ℕ) (words : List UInt16)
    (h : quadWords hasQuad + ws.length = 8) :
    fillGap hasQuad ⟨src, i, none, quadWords hasQuad + ws.length, words⟩ = .ok words := by
  rw [h]
  exact if_neg (by simp)

theorem fillGap_gap (src : Bytes) (i : ℕ) (hinit : init.length = 8)
    (h : quadWords hasQuad + (ls ++ rs).length < 8) :
    fillGap hasQuad ⟨src, i, some ls.length, quadWords hasQuad + (ls ++ rs).length,
        ls ++ rs ++ init.drop (ls ++ rs).length⟩ =
      .ok (ls ++ List.replicate (8 - (quadWords hasQuad + (ls ++ rs).length)) 0 ++ rs ++
        init.drop (8 - quadWords hasQuad)) := by
  obtain ⟨spare, hspare, hspareLen⟩ : ∃ spare, init.drop (ls ++ rs).length =
      spare ++ init.drop (8 - quadWords hasQuad) ∧
      spare.length = 8 - (quadWords hasQuad + (ls ++ rs).length) := by
    refine ⟨(init.drop (ls ++ rs).length).take (8 - (quadWords hasQuad + (ls ++ rs).length)), ?_, ?_⟩
    · have hdrop : init.drop (8 - quadWords hasQuad) = (init.drop (ls ++ rs).length).drop
          (8 - (quadWords hasQuad + (ls ++ rs).length)) := by
        rw [List.drop_drop]
        congr 1
        omega
      rw [hdrop, List.take_append_drop]
    · rw [List.length_take, List.length_drop, hinit]
      omega
  have hmove : ((quadWords hasQuad + (ls ++ rs).length : ℕ) : ℤ) - (if hasQuad then 2 else 0) -
      ls.length = rs.length := by
    rw [List.length_append]
    unfold quadWords
    split_ifs <;> omega
  have hbad : ¬ (8 < quadWords hasQuad + (ls ++ rs).length ∨
      quadWords hasQuad + (ls ++ rs).length = 8 ∧ some ls.length ≠ none ∨
      quadWords hasQuad + (ls ++ rs).length < 8 ∧ some ls.length = none) := by
    rintro (h8 | ⟨h8, -⟩ | ⟨-, hnone⟩)
    · omega
    · omega
    · cases hnone
  unfold fillGap
  dsimp only
  rw [if_neg hbad, hmove, if_neg (by omega), Int.toNat_natCast, hspare, ← hspareLen,
    ← List.append_assoc, memset_memmove]

theorem fillGap_refused (src : Bytes) (i : ℕ) (words : List UInt16) {n : ℕ} {gap : Option ℕ}
    (h : 8 < n ∨ n = 8 ∧ gap ≠ none ∨ n < 8 ∧ gap = none) :
    fillGap hasQuad ⟨src, i, gap, n, words⟩ = .error .badParse := if_pos h

end Fill

section Assemble
variable {s t : Bytes} {words init : List UInt16} {hasQuad : Bool}

/-- What pieces of text stand for, and those with two colons between them. -/
inductive Assembled (hasQuad : Bool) (init : List UInt16) : Bytes → List UInt16 → Prop
  | full {s : Bytes} {ws : List UInt16} (hs : Pieces s ws)
      (hlen : quadWords hasQuad + ws.length = 8) :
      Assembled hasQuad init s (ws ++ init.drop (8 - quadWords hasQuad))
  | gap {l r : Bytes} {ls rs : List UInt16} (hl : Left l ls) (hr : Pieces r rs)
      (hlen : quadWords hasQuad + (ls ++ rs).length < 8) :
      Assembled hasQuad init (l ++ 58 :: 58 :: r)
        (ls ++ List.replicate (8 - (quadWords hasQuad + (ls ++ rs).length)) 0 ++ rs ++
          init.drop (8 - quadWords hasQuad))

/-- The loop over the words, and the gap. -/
def assemble (hasQuad : Bool) (init : List UInt16) (s t : Bytes) : Except Stop (List UInt16) :=
  (readWords t.length ⟨s ++ t, 0, none, quadWords hasQuad, init⟩).bind (fillGap hasQuad)

theorem assemble_reads {ws : List UInt16} {gap : Option ℕ} (hstops : Stops s t)
    (hinit : init.length = 8) (h : Reads 0 none s ws gap) (hlen : ws.length ≤ 8) :
    assemble hasQuad init s t = fillGap hasQuad
      ⟨t, ws.length, gap, quadWords hasQuad + ws.length, ws ++ init.drop ws.length⟩ := by
  have hset : setFrom init 0 ws = ws ++ init.drop ws.length := setFrom_eq [] (by omega)
  rw [assemble, reads_run h hstops, Nat.zero_add, ← hset]
  rfl

theorem assemble_of_assembled (hstops : Stops s t) (hinit : init.length = 8)
    (h : Assembled hasQuad init s words) : assemble hasQuad init s t = .ok words := by
  cases h with
  | @full s ws hs hlen =>
    have hread : Reads 0 none s ws none := reads_of_pieces hs (by omega) _
    have hdrop : ws.length = 8 - quadWords hasQuad := by omega
    rw [assemble_reads hstops hinit hread (by omega), fillGap_full _ _ _ hlen, hdrop]
  | @gap l r ls rs hl hr hlen =>
    have hsum : (ls ++ rs).length = ls.length + rs.length := List.length_append
    have hread := reads_of_left hl hr (by omega)
    rw [assemble_reads hstops hinit hread (by omega), fillGap_gap _ _ hinit hlen]

theorem assemble_cases (hstops : Stops s t) (hinit : init.length = 8) :
    (∃ words, assemble hasQuad init s t = .ok words ∧ Assembled hasQuad init s words) ∨
      assemble hasQuad init s t = .error .badParse := by
  rcases run_reads 0 none hstops (quadWords hasQuad) init with ⟨ws, gap, hread⟩ | hrefused
  · rcases parts_of_reads hread with ⟨rfl, hs, hlen⟩ | ⟨l, ls, r, rs, rfl, rfl, hl, hr, rfl, hlen⟩
    · by_cases hfull : quadWords hasQuad + ws.length = 8
      · have hassembled : Assembled hasQuad init _ _ := .full hs hfull
        exact .inl ⟨_, assemble_of_assembled hstops hinit hassembled, hassembled⟩
      · right
        rw [assemble_reads hstops hinit hread hlen]
        exact fillGap_refused _ _ _ (by rcases Nat.lt_or_gt_of_ne hfull with h | h <;> simp [h])
    · by_cases hroom : quadWords hasQuad + (ls ++ rs).length < 8
      · have hassembled : Assembled hasQuad init _ _ := .gap hl hr hroom
        exact .inl ⟨_, assemble_of_assembled hstops hinit hassembled, hassembled⟩
      · right
        rw [assemble_reads hstops hinit hread hlen]
        apply fillGap_refused
        rcases Nat.lt_or_eq_of_le (Nat.le_of_not_lt hroom) with h | h
        · exact .inl h
        · exact .inr (.inl ⟨h.symm, Option.some_ne_none _⟩)
  · right
    rw [assemble, hrefused]
    rfl

end Assemble

section Tails
variable {a l s : Bytes} {ws : List UInt16}

theorem dangling_concat (s : Bytes) (c d : UInt8) :
    Dangling (s ++ [c, d]) ↔ s ≠ [] ∧ d = 58 ∧ c ≠ 58 := by
  have hlength : (s ++ [c, d]).length = s.length + 2 := by simp
  have hlast : (s ++ [c, d])[s.length + 2 - 1]? = some d := by
    simp
  have hprev : (s ++ [c, d])[s.length + 2 - 2]? = some c := by
    simp
  rw [Dangling, hlength, hlast, hprev, ← List.length_pos_iff]
  simp only [Option.some.injEq, ne_eq]
  refine and_congr_left' ?_
  omega

theorem ended_digit_colon (h : Ended HexGroup 58 s ws) (hne : ws ≠ []) :
    ∃ b c, s = b ++ [c, 58] ∧ c ≠ 58 := by
  obtain ⟨l, rfl, hl⟩ := groups_of_ended h hne
  obtain ⟨a, wa, g, w, rfl, -, -, hlast⟩ := joined_iff.mp hl
  cases hlast with
  | @group w hg =>
    obtain ⟨b, c, rfl⟩ : ∃ b c, g = b ++ [c] := ⟨g.dropLast, g.getLast hg.nonempty,
      (List.dropLast_append_getLast hg.nonempty).symm⟩
    have hc := hg.digits c (by simp)
    exact ⟨a ++ b, c, by simp, (isXDigit_ne hc).1⟩

end Tails

/-! `tor_inet_pton` accepts exactly the texts of IPv6 addresses. -/

section Sound
variable {q s : Bytes} {words ws init : List UInt16} {a b c d : ℕ}

theorem length_ended (h : Ended HexGroup 58 s ws) : 2 * ws.length ≤ s.length := by
  induction h with
  | nil => exact Nat.le_refl _
  | @cons g s w ws hg hs ih =>
    have hpos := List.length_pos_iff.mpr hg.nonempty
    simp only [List.length_cons, List.length_append]
    omega

theorem getLast?_group {g : Bytes} {w : UInt16} (x : Bytes) (hg : HexGroup g w) :
    (x ++ g).getLast? ≠ some 58 := by
  rw [List.getLast?_append_of_ne_nil _ hg.nonempty]
  intro h
  exact absurd (hg.digits 58 (List.mem_of_getLast? h)) (by decide)

theorem words_of_pieces (h : Pieces s ws) :
    Ended HexGroup 58 s ws ∨ Words s ws ∧ ∃ x g w, s = x ++ g ∧ HexGroup g w := by
  obtain ⟨a, wa, t, tw, rfl, rfl, ha, hlast⟩ := joined_iff.mp h
  cases hlast with
  | none =>
    rw [List.append_nil, List.append_nil]
    exact .inl ha
  | @group _ w hg => exact .inr ⟨ha.join (.last (.group hg)), a, t, w, rfl, hg⟩

theorem text_of_assembled (h : Assembled false unsetWords s words) (hs : ¬ Dangling s) :
    Ipv6Text s words := by
  have hdrop : unsetWords.drop (8 - quadWords false) = [] := rfl
  cases h with
  | @full s ws hpieces hlen =>
    rw [quadWords, if_neg Bool.false_ne_true, Nat.zero_add] at hlen
    rw [hdrop, List.append_nil]
    rcases words_of_pieces hpieces with hended | ⟨hwords, -⟩
    · obtain ⟨b, c, rfl, hc⟩ := ended_digit_colon hended (List.ne_nil_of_length_pos (by omega))
      have hlength := length_ended hended
      rw [hlen, List.length_append, List.length_cons, List.length_singleton] at hlength
      have hne : b ≠ [] := List.ne_nil_of_length_pos (by omega)
      exact absurd ((dangling_concat b c 58).mpr ⟨hne, rfl, hc⟩) hs
    · exact .full hwords hlen
  | @gap l r ls rs hl hr hlen =>
    rw [quadWords, if_neg Bool.false_ne_true, Nat.zero_add, List.length_append] at hlen
    have hright : r = [] ∧ rs = [] ∨ Words r rs := by
      rcases words_of_pieces hr with hended | ⟨hwords, -⟩
      · by_cases hne : rs = []
        · subst hne
          cases hended
          exact .inl ⟨rfl, rfl⟩
        · obtain ⟨b, c, rfl, hc⟩ := ended_digit_colon hended hne
          have hdangling := (dangling_concat (l ++ 58 :: 58 :: b) c 58).mpr ⟨by simp, rfl, hc⟩
          rw [List.append_assoc] at hdangling
          exact absurd hdangling hs
      · exact .inr hwords
    rw [hdrop, List.append_nil, quadWords, if_neg Bool.false_ne_true, Nat.zero_add,
      List.length_append]
    exact .compressed hl hright hlen

theorem text_of_assembled_quad (h : Assembled true init s words) (hs : s.getLast? = some 58)
    (hq : Quad q a b c d)
    (hinit : init.drop 6 = [UInt16.ofNat (a * 256 + b), UInt16.ofNat (c * 256 + d)]) :
    Ipv6Text (s ++ q) words := by
  have hdrop : init.drop (8 - quadWords true) =
      [UInt16.ofNat (a * 256 + b), UInt16.ofNat (c * 256 + d)] := hinit
  have hlast : Words q [UInt16.ofNat (a * 256 + b), UInt16.ofNat (c * 256 + d)] := .last (.quad hq)
  cases h with
  | @full s ws hpieces hlen =>
    rw [quadWords, if_pos rfl] at hlen
    rw [hdrop]
    rcases words_of_pieces hpieces with hended | ⟨-, x, g, w, rfl, hg⟩
    · refine .full (hended.join hlast) ?_
      rw [List.length_append, List.length_cons, List.length_singleton]
      omega
    · exact absurd hs (getLast?_group x hg)
  | @gap l r ls rs hl hr hlen =>
    rw [quadWords, if_pos rfl, List.length_append] at hlen
    rcases words_of_pieces hr with hended | ⟨-, x, g, w, rfl, hg⟩
    · have htext := Ipv6Text.compressed hl (.inr (hended.join hlast)) (by
        rw [List.length_append, List.length_cons, List.length_singleton]
        omega)
      have hzeros : 8 - (quadWords true + (ls ++ rs).length) = 8 - (ls.length +
          (rs ++ [UInt16.ofNat (a * 256 + b), UInt16.ofNat (c * 256 + d)]).length) := by
        simp only [quadWords, if_true, List.length_append, List.length_cons, List.length_nil]
        omega
      rw [hdrop, hzeros, List.append_assoc _ rs]
      rw [List.append_assoc, List.cons_append, List.cons_append]
      exact htext
    · refine absurd hs ?_
      have happend : l ++ 58 :: 58 :: (x ++ g) = l ++ 58 :: 58 :: x ++ g := by simp
      rw [happend]
      exact getLast?_group _ hg

end Sound

section Complete
variable {q s t : Bytes} {words ws : List UInt16} {a b c d : ℕ}

/-- The words that a dotted quad sets. -/
def quadInit (a b c d : ℕ) : List UInt16 :=
  (unsetWords.set 6 (UInt16.ofNat (a * 256 + b))).set 7 (UInt16.ofNat (c * 256 + d))

theorem quadInit_drop (a b c d : ℕ) : (quadInit a b c d).drop 6 =
    [UInt16.ofNat (a * 256 + b), UInt16.ofNat (c * 256 + d)] := rfl

theorem not_dangling {x : UInt8} (h : s.getLast? = some x) (hx : x ≠ 58) : ¬ Dangling s := by
  rintro ⟨-, hlast, -⟩
  rw [← List.getLast?_eq_getElem?, h] at hlast
  exact hx (Option.some.inj hlast)

theorem Quad.getLast? (h : Quad q a b c d) (s : Bytes) :
    ∃ x, (s ++ q).getLast? = some x ∧ x ≠ 58 := by
  cases h with
  | @dotted ga gb gc gd _ _ _ _ ha hb hc hd =>
    refine ⟨gd.getLast hd.nonempty, ?_, (isDigit_ne (hd.digits _ (List.getLast_mem _))).1⟩
    have hsplit : s ++ (ga ++ 46 :: (gb ++ 46 :: (gc ++ 46 :: gd))) =
        s ++ ga ++ 46 :: gb ++ 46 :: gc ++ [46] ++ gd := by simp
    rw [hsplit, List.getLast?_append_of_ne_nil _ hd.nonempty, List.getLast?_eq_some_getLast]

theorem noDot_ended (h : Ended HexGroup 58 s ws) : ∀ x ∈ s, x ≠ 46 :=
  h.forall_mem (by decide) fun _ _ hg x hx => (isXDigit_ne (hg.digits x hx)).2

theorem noDot_left (h : Left s ws) : ∀ x ∈ s, x ≠ 46 := by
  rcases h with ⟨rfl, -⟩ | h
  · simp
  · obtain ⟨a, wa, t, tw, rfl, rfl, ha, hlast⟩ := joined_iff.mp h
    cases hlast with
    | group hg =>
      intro x hx
      rcases List.mem_append.mp hx with hx | hx
      · exact noDot_ended ha x hx
      · exact (isXDigit_ne (hg.digits x hx)).2

/-- How a text is taken apart at the first digit of its dotted quad, if it has one. -/
inductive Splits (s : Bytes) (words : List UInt16) : Prop
  | plain (hdot : ∀ x ∈ s, x ≠ 46) (hs : ¬ Dangling s) (h : Assembled false unsetWords s words)
  | quad {pre q : Bytes} {a b c d : ℕ} (hsplit : s = pre ++ q) (hdot : ∀ x ∈ pre, x ≠ 46)
      (hpre : pre.getLast? = some 58) (hq : Quad q a b c d)
      (h : Assembled true (quadInit a b c d) pre words)

theorem words_cases (h : Words s ws) :
    (Pieces s ws ∧ (∀ x ∈ s, x ≠ 46) ∧ ∃ y x, s = y ++ [x] ∧ x ≠ 58) ∨
      ∃ pre q wp a b c d, s = pre ++ q ∧ Ended HexGroup 58 pre wp ∧ Quad q a b c d ∧
        ws = wp ++ [UInt16.ofNat (a * 256 + b), UInt16.ofNat (c * 256 + d)] := by
  obtain ⟨pre, wp, t, tw, rfl, rfl, hpre, hlast⟩ := joined_iff.mp h
  cases hlast with
  | @group w hg =>
    left
    refine ⟨hpre.join (.last (.group hg)), ?_, pre ++ t.dropLast, t.getLast hg.nonempty, ?_, ?_⟩
    · intro x hx
      rcases List.mem_append.mp hx with hx | hx
      · exact noDot_ended hpre x hx
      · exact (isXDigit_ne (hg.digits x hx)).2
    · rw [List.append_assoc, List.dropLast_append_getLast]
    · exact (isXDigit_ne (hg.digits _ (List.getLast_mem _))).1
  | quad hq => exact .inr ⟨pre, t, wp, _, _, _, _, rfl, hpre, hq, rfl⟩

theorem ended_pieces (h : Ended HexGroup 58 s ws) : Pieces s ws := by
  have hjoin : Pieces (s ++ []) (ws ++ []) := h.join (.last .none)
  rwa [List.append_nil, List.append_nil] at hjoin

theorem splits_of_full (hs : Words s ws) (hlen : ws.length = 8) : Splits s ws := by
  rcases words_cases hs with ⟨hpieces, hdot, y, x, rfl, hx⟩ |
    ⟨pre, q, wp, a, b, c, d, rfl, hpre, hq, rfl⟩
  · have hassembled : Assembled false unsetWords (y ++ [x]) (ws ++ []) :=
      .full hpieces ((Nat.zero_add _).trans hlen)
    rw [List.append_nil] at hassembled
    exact .plain hdot (not_dangling List.getLast?_concat hx) hassembled
  · rw [List.length_append, List.length_cons, List.length_singleton] at hlen
    have hassembled : Assembled true (quadInit a b c d) pre
        (wp ++ [UInt16.ofNat (a * 256 + b), UInt16.ofNat (c * 256 + d)]) :=
      .full (ended_pieces hpre) (by rw [quadWords, if_pos rfl]; omega)
    rcases hpre.getLast? with ⟨rfl, -⟩ | hlast
    · rw [List.length_nil] at hlen
      omega
    · exact .quad rfl (noDot_ended hpre) hlast hq hassembled

theorem splits_of_compressed {l r : Bytes} {ls rs : List UInt16} (hl : Left l ls)
    (hr : r = [] ∧ rs = [] ∨ Words r rs) (hlen : ls.length + rs.length < 8) :
    Splits (l ++ 58 :: 58 :: r) (ls ++ List.replicate (8 - (ls.length + rs.length)) 0 ++ rs) := by
  have hcolons : ∀ {y : Bytes}, (∀ x ∈ y, x ≠ 46) → ∀ x ∈ l ++ 58 :: 58 :: y, x ≠ 46 := by
    intro y hy x hx
    rcases List.mem_append.mp hx with hx | hx
    · exact noDot_left hl x hx
    · rcases List.mem_cons.mp hx with rfl | hx
      · decide
      · rcases List.mem_cons.mp hx with rfl | hx
        · decide
        · exact hy x hx
  have hplain : Pieces r rs → Assembled false unsetWords (l ++ 58 :: 58 :: r)
      (ls ++ List.replicate (8 - (ls.length + rs.length)) 0 ++ rs) := by
    intro hpieces
    have hgap : Assembled false unsetWords (l ++ 58 :: 58 :: r) (ls ++
        List.replicate (8 - (0 + (ls ++ rs).length)) 0 ++ rs ++ []) :=
      .gap hl hpieces (by rw [quadWords, if_neg Bool.false_ne_true, List.length_append]; omega)
    rwa [List.append_nil, Nat.zero_add, List.length_append] at hgap
  rcases hr with ⟨rfl, rfl⟩ | hr
  · refine .plain (hcolons (by simp)) ?_ (hplain (.last .none))
    rw [dangling_concat]
    simp
  · rcases words_cases hr with ⟨hpieces, hdot, y, x, rfl, hx⟩ |
      ⟨pre, q, wp, a, b, c, d, rfl, hpre, hq, rfl⟩
    · refine .plain (hcolons hdot) (not_dangling ?_ hx) (hplain hpieces)
      rw [List.getLast?_append_cons, ← List.cons_append, ← List.cons_append, List.getLast?_concat]
    · have hsplit : l ++ 58 :: 58 :: (pre ++ q) = l ++ 58 :: 58 :: pre ++ q := by simp
      have hlast : (l ++ 58 :: 58 :: pre).getLast? = some 58 := by
        rcases hpre.getLast? with ⟨-, rfl⟩ | hlast
        · simp
        · rw [List.getLast?_append_cons, List.getLast?_cons_cons, List.getLast?_cons, hlast]
          rfl
      rw [List.length_append, List.length_cons, List.length_singleton] at hlen ⊢
      have hgap : Assembled true (quadInit a b c d) (l ++ 58 :: 58 :: pre) (ls ++
          List.replicate (8 - (2 + (ls ++ wp).length)) 0 ++ wp ++
            [UInt16.ofNat (a * 256 + b), UInt16.ofNat (c * 256 + d)]) :=
        .gap hl (ended_pieces hpre) (by rw [quadWords, if_pos rfl, List.length_append]; omega)
      have hzeros : 8 - (2 + (ls ++ wp).length) = 8 - (ls.length + (wp.length + (1 + 1))) := by
        rw [List.length_append]
        omega
      rw [hzeros, List.append_assoc _ wp] at hgap
      exact .quad hsplit (hcolons (noDot_ended hpre)) hlast hq hgap

theorem splits_of_text (h : Ipv6Text s words) : Splits s words := by
  cases h with
  | full hs hlen => exact splits_of_full hs hlen
  | compressed hl hr hlen => exact splits_of_compressed hl hr hlen

end Complete

section Parse
variable {q s pre : Bytes} {words : List UInt16} {a b c d : ℕ}

theorem skipDigits_digits {ds rest : Bytes} {x : UInt8} (hds : ∀ y ∈ ds, isDigit y = true)
    (hx : isDigit x = false) : skipDigits (ds ++ x :: rest) = x :: rest := by
  induction ds with
  | nil =>
    cases rest with
    | nil => rfl
    | cons y rest => exact if_neg (by rw [hx]; exact Bool.false_ne_true)
  | cons y ds ih =>
    have htail := ih fun z hz => hds z (List.mem_cons_of_mem y hz)
    obtain ⟨z, rest', hcons⟩ : ∃ z rest', ds ++ x :: rest = z :: rest' :=
      List.exists_cons_of_ne_nil (by simp)
    rw [hcons] at htail
    rw [List.cons_append, hcons, ← htail]
    exact if_pos (hds y (List.mem_cons_self ..))

theorem skipDigits_suffix (l : Bytes) : skipDigits l <:+ l := by
  induction l with
  | nil => exact List.suffix_refl _
  | cons x l ih =>
    cases l with
    | nil => exact List.suffix_refl _
    | cons y l =>
      rw [skipDigits]
      split_ifs
      · exact ih.trans (List.suffix_cons x _)
      · exact List.suffix_refl _

theorem readQuad_of_quad (hdot : ∀ x ∈ pre, x ≠ 46) (hpre : pre.getLast? = some 58)
    (hq : Quad q a b c d) : readQuad (pre ++ q) = .ok (q.length, a <<< 8 ||| b, c <<< 8 ||| d) := by
  obtain ⟨rest, hrest⟩ := List.head?_eq_some_iff.mp ((List.head?_reverse (l := pre)).trans hpre)
  have hscan := scanQuad_of_quad hq
  have hupto : skipDigits ((pre ++ q).takeWhile (· ≠ 46)).reverse = pre.reverse := by
    cases hq with
    | @dotted ga gb gc gd _ _ _ _ ha hb hc hd =>
      have hnodot : ∀ x ∈ pre ++ ga, decide (x ≠ 46) = true := by
        intro x hx
        apply decide_eq_true
        rcases List.mem_append.mp hx with hx | hx
        · exact hdot x hx
        · exact (isDigit_ne (ha.digits x hx)).2
      have hdigits : ∀ x ∈ ga.reverse, isDigit x = true :=
        fun x hx => ha.digits x (List.mem_reverse.mp hx)
      rw [← List.append_assoc, takeWhile_until hnodot (by decide), List.reverse_append, hrest]
      exact skipDigits_digits hdigits (by decide)
  have hbytes : ¬ (255 < a ∨ 255 < b ∨ 255 < c ∨ 255 < d) := by
    cases hq with
    | dotted ha hb hc hd =>
      have hbyte := And.intro (And.intro ha.byte hb.byte) (And.intro hc.byte hd.byte)
      omega
  unfold readQuad
  rw [hupto, if_neg (by rw [hrest]; simp), List.length_reverse, List.drop_left, hscan]
  exact if_neg hbytes

/-- The text before a dot is refused, or there is a dotted quad after it. -/
theorem readQuad_cases (s : Bytes) : readQuad s = .error .badParse ∨
    ∃ pre q a b c d, s = pre ++ q ∧ pre.getLast? = some 58 ∧ Quad q a b c d ∧
      readQuad s = .ok (q.length, a <<< 8 ||| b, c <<< 8 ||| d) := by
  unfold readQuad
  dsimp only
  split_ifs with hcolon
  · exact .inl rfl
  · rw [not_not] at hcolon
    split
    · exact .inl rfl
    · rename_i a b c d hscan
      split_ifs with hbytes
      · exact .inl rfl
      · right
        have hprefix : (skipDigits (s.takeWhile (· ≠ 46)).reverse).reverse <+: s := by
          have hsuffix := skipDigits_suffix (s.takeWhile (· ≠ 46)).reverse
          have hreverse := List.reverse_prefix.mpr hsuffix
          rw [List.reverse_reverse] at hreverse
          exact hreverse.trans (List.takeWhile_prefix _)
        have hsplit := (List.prefix_iff_eq_append.mp hprefix).symm
        rw [List.length_reverse] at hsplit
        refine ⟨_, _, a, b, c, d, hsplit, ?_, ?_, rfl⟩
        · rw [List.getLast?_reverse, hcolon]
        · exact quad_of_scanQuad hscan (by omega) (by omega) (by omega) (by omega)

theorem quadInit_of_bytes (hq : Quad q a b c d) :
    (unsetWords.set 6 (UInt16.ofNat (a <<< 8 ||| b))).set 7 (UInt16.ofNat (c <<< 8 ||| d)) =
      quadInit a b c d := by
  cases hq with
  | dotted ha hb hc hd =>
    have hb := hb.byte
    have hd := hd.byte
    rw [Keypin.shiftLeft_or (show b < 2 ^ 8 by omega), Keypin.shiftLeft_or (show d < 2 ^ 8 by omega)]
    rfl

theorem torInet6Pton_plain (hs : ¬ Dangling s) (hdot : ∀ x ∈ s, x ≠ 46) :
    torInet6Pton s = assemble false unsetWords s [] := by
  have hhead : s.head? ≠ some 46 := fun h => hdot 46 (List.mem_of_head? h) rfl
  have hmem : 46 ∉ s := fun h => hdot 46 h rfl
  unfold torInet6Pton
  rw [if_neg hs, if_neg hhead, if_neg hmem, assemble, List.append_nil]
  rfl

theorem torInet6Pton_quad (hs : ¬ Dangling (pre ++ q)) (hhead : (pre ++ q).head? ≠ some 46)
    (hmem : 46 ∈ pre ++ q) (hq : Quad q a b c d)
    (hread : readQuad (pre ++ q) = .ok (q.length, a <<< 8 ||| b, c <<< 8 ||| d)) :
    torInet6Pton (pre ++ q) = assemble true (quadInit a b c d) pre q := by
  unfold torInet6Pton
  rw [if_neg hs, if_neg hhead, if_pos hmem, hread, assemble, ← quadInit_of_bytes hq]
  rfl

theorem torInet6Pton_of_text (h : Ipv6Text s words) : torInet6Pton s = .ok words := by
  cases splits_of_text h with
  | plain hdot hs hassembled =>
    rw [torInet6Pton_plain hs hdot]
    exact assemble_of_assembled (.inl rfl) rfl hassembled
  | @quad pre q a b c d hsplit hdot hpre hq hassembled =>
    subst hsplit
    obtain ⟨x, hlast, hx⟩ := hq.getLast? pre
    have hne : pre ≠ [] := by
      rintro rfl
      cases hpre
    have hhead : (pre ++ q).head? ≠ some 46 := by
      rw [List.head?_append_of_ne_nil _ hne]
      exact fun h => hdot 46 (List.mem_of_head? h) rfl
    have hmem : 46 ∈ pre ++ q := by
      cases hq
      simp
    rw [torInet6Pton_quad (not_dangling hlast hx) hhead hmem hq (readQuad_of_quad hdot hpre hq)]
    exact assemble_of_assembled (.inr (.inr hpre)) rfl hassembled

/-- What is accepted is the text of an address, and no assertion fails. -/
theorem torInet6Pton_cases (s : Bytes) : (∃ words, torInet6Pton s = .ok words ∧ Ipv6Text s words) ∨
      torInet6Pton s = .error .badParse := by
  by_cases hs : Dangling s
  · exact .inr (if_pos hs)
  by_cases hhead : s.head? = some 46
  · exact .inr ((if_neg hs).trans (if_pos hhead))
  by_cases hmem : 46 ∈ s
  · rcases readQuad_cases s with hrefused | ⟨pre, q, a, b, c, d, rfl, hpre, hq, hread⟩
    · right
      unfold torInet6Pton
      rw [if_neg hs, if_neg hhead, if_pos hmem, hrefused]
      rfl
    · rw [torInet6Pton_quad hs hhead hmem hq hread]
      refine (assemble_cases (.inr (.inr hpre)) rfl).imp_left ?_
      rintro ⟨words, hok, hassembled⟩
      exact ⟨words, hok, text_of_assembled_quad hassembled hpre hq (quadInit_drop a b c d)⟩
  · have hdot : ∀ x ∈ s, x ≠ 46 := by
      rintro x hx rfl
      exact hmem hx
    rw [torInet6Pton_plain hs hdot]
    refine (assemble_cases (.inl rfl) rfl).imp_left ?_
    rintro ⟨words, hok, hassembled⟩
    exact ⟨words, hok, text_of_assembled hassembled hs⟩

theorem torInet6Pton_eq_ok : torInet6Pton s = .ok words ↔ Ipv6Text s words := by
  constructor
  · intro h
    rcases torInet6Pton_cases s with ⟨words', hok, htext⟩ | hrefused
    · rw [h] at hok
      rwa [Except.ok.inj hok]
    · rw [h] at hrefused
      cases hrefused
  · exact torInet6Pton_of_text

end Parse

end TorDaemon.Net
