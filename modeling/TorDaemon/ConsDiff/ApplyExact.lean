import TorDaemon.ConsDiff.Apply
import TorDaemon.Library.LineEditor

/-! Applying a diff is executing its commands in a line editor (`consdiff.c`). -/
namespace TorDaemon.ConsDiff
open Library.NetworkOrder Library.LineEditor Library.Scanner
open SharedRandom (decimal)

/-! ### Scripts -/

def Numeral (s : Bytes) (n : ℕ) : Prop :=
  s ≠ [] ∧ (∀ d ∈ s, torIsdigit d = true) ∧ decimal s = n

/-- The addresses before a command: a line, two lines, or a line and `$`. -/
inductive Addresses : Bytes → ℕ → Address → Prop
  | one {s : Bytes} {n : ℕ} : Numeral s n → Addresses s n (.line n)
  | range {s t : Bytes} {n m : ℕ} : Numeral s n → Numeral t m → Addresses (s ++ 44 :: t) n (.line m)
  | toEnd {s : Bytes} {n : ℕ} : Numeral s n → Addresses (s ++ [44, 36]) n .dollar

/-- The commands that the lines of a script are; the text of one ends with a line ".". -/
inductive Reads : List Line → List (Command Line) → Prop
  | nil : Reads [] []
  | append {s : Bytes} {n : ℕ} {line : Line} {text rest : List Line} {cmds : List (Command Line)} :
      Numeral s n → cString line = s ++ [97] → (∀ t ∈ text, t ≠ [46]) → Reads rest cmds →
      Reads (line :: (text ++ [46] :: rest)) (.append n text :: cmds)
  | change {s : Bytes} {first : ℕ} {last : Address} {line : Line} {text rest : List Line}
      {cmds : List (Command Line)} :
      Addresses s first last → cString line = s ++ [99] → (∀ t ∈ text, t ≠ [46]) →
      Reads rest cmds →
      Reads (line :: (text ++ [46] :: rest)) (.change first last text :: cmds)
  | delete {s : Bytes} {first : ℕ} {last : Address} {line : Line} {rest : List Line}
      {cmds : List (Command Line)} :
      Addresses s first last → cString line = s ++ [100] → Reads rest cmds →
      Reads (line :: rest) (.delete first last :: cmds)

section Unique
variable {s t tail tail' : Bytes} {n m : ℕ} {first first' : ℕ} {last last' : Address}
  {script : List Line} {cmds cmds' : List (Command Line)}

theorem Numeral.unique (h : Numeral s n) (h' : Numeral s m) : n = m := h.2.2.symm.trans h'.2.2

theorem Numeral.append_inj (h : Numeral s n) (h' : Numeral t m)
    (heq : s ++ 44 :: tail = t ++ 44 :: tail') : s = t ∧ tail = tail' := by
  have hs : (44 : UInt8) ∉ s := fun hmem => Bool.noConfusion (h.2.1 44 hmem)
  have ht : (44 : UInt8) ∉ t := fun hmem => Bool.noConfusion (h'.2.1 44 hmem)
  exact append_cons_inj hs ht heq

theorem Numeral.ne_append (h : Numeral s n) : s ≠ t ++ 44 :: tail := by
  rintro rfl
  exact Bool.noConfusion (h.2.1 44 (List.mem_append_right t List.mem_cons_self))

theorem Addresses.unique (h : Addresses s first last) (h' : Addresses s first' last') :
    first = first' ∧ last = last' := by
  cases h with
  | one hn =>
    generalize hs : s = s' at h'
    cases h' with
    | one hn' =>
      have hfirst := hn.unique (hs ▸ hn')
      exact ⟨hfirst, congrArg Address.line hfirst⟩
    | range hn' hm' => exact absurd hs hn.ne_append
    | toEnd hn' => exact absurd hs hn.ne_append
  | @range s t n m hn hm =>
    generalize hs : s ++ 44 :: t = s' at h'
    cases h' with
    | one hn' => exact absurd hs.symm hn'.ne_append
    | range hn' hm' =>
      obtain ⟨rfl, rfl⟩ := hn.append_inj hn' hs
      exact ⟨hn.unique hn', congrArg Address.line (hm.unique hm')⟩
    | toEnd hn' =>
      obtain ⟨-, rfl⟩ := hn.append_inj hn' hs
      exact Bool.noConfusion (hm.2.1 36 List.mem_cons_self)
  | @toEnd s n hn =>
    generalize hs : s ++ [44, 36] = s' at h'
    cases h' with
    | one hn' => exact absurd hs.symm hn'.ne_append
    | range hn' hm' =>
      obtain ⟨-, rfl⟩ := hn.append_inj hn' hs
      exact Bool.noConfusion (hm'.2.1 36 List.mem_cons_self)
    | toEnd hn' =>
      obtain ⟨rfl, -⟩ := hn.append_inj hn' hs
      exact ⟨hn.unique hn', rfl⟩

theorem text_inj {text text' rest rest' : List Line} (h : ∀ t ∈ text, t ≠ [46])
    (h' : ∀ t ∈ text', t ≠ [46]) (heq : text ++ [46] :: rest = text' ++ [46] :: rest') :
    text = text' ∧ rest = rest' := by
  have htext : [46] ∉ text := fun hmem => h _ hmem rfl
  have htext' : [46] ∉ text' := fun hmem => h' _ hmem rfl
  exact append_cons_inj htext htext' heq

theorem letter_inj {c c' : UInt8} {line : Line} (h : cString line = s ++ [c])
    (h' : cString line = t ++ [c']) : s = t ∧ c = c' :=
  List.append_singleton_inj.mp (h.symm.trans h')

theorem letter_ne {c c' : UInt8} {line line' : Line} {l l' : List Line}
    (h : cString line = s ++ [c]) (h' : cString line' = t ++ [c']) (hne : c ≠ c') :
    line :: l ≠ line' :: l' := by
  intro heq
  obtain ⟨rfl, -⟩ := List.cons.inj heq
  exact hne (letter_inj h h').2

theorem Reads.unique (h : Reads script cmds) (h' : Reads script cmds') : cmds = cmds' := by
  induction h generalizing cmds' with
  | nil =>
    cases h'
    rfl
  | @append s n line text rest cmds hn hline htext _ ih =>
    generalize hscript : line :: (text ++ [46] :: rest) = script at h'
    cases h' with
    | nil => cases hscript
    | append hn' hline' htext' hrest' =>
      obtain ⟨rfl, hrest⟩ := List.cons.inj hscript
      obtain ⟨rfl, rfl⟩ := text_inj htext htext' hrest
      obtain ⟨rfl, -⟩ := letter_inj hline hline'
      rw [hn.unique hn', ih hrest']
    | change _ hline' _ _ =>
      exact (letter_ne hline hline' (by decide) hscript).elim
    | delete _ hline' _ =>
      exact (letter_ne hline hline' (by decide) hscript).elim
  | @change s first last line text rest cmds haddr hline htext _ ih =>
    generalize hscript : line :: (text ++ [46] :: rest) = script at h'
    cases h' with
    | nil => cases hscript
    | append _ hline' _ _ =>
      exact (letter_ne hline hline' (by decide) hscript).elim
    | change haddr' hline' htext' hrest' =>
      obtain ⟨rfl, hrest⟩ := List.cons.inj hscript
      obtain ⟨rfl, rfl⟩ := text_inj htext htext' hrest
      obtain ⟨rfl, -⟩ := letter_inj hline hline'
      obtain ⟨rfl, rfl⟩ := haddr.unique haddr'
      rw [ih hrest']
    | delete _ hline' _ =>
      exact (letter_ne hline hline' (by decide) hscript).elim
  | @delete s first last line rest cmds haddr hline _ ih =>
    generalize hscript : line :: rest = script at h'
    cases h' with
    | nil => cases hscript
    | append _ hline' _ _ =>
      exact (letter_ne hline hline' (by decide) hscript).elim
    | change _ hline' _ _ =>
      exact (letter_ne hline hline' (by decide) hscript).elim
    | delete haddr' hline' hrest' =>
      cases hscript
      obtain ⟨rfl, -⟩ := letter_inj hline hline'
      obtain ⟨rfl, rfl⟩ := haddr.unique haddr'
      rw [ih hrest']

end Unique

/-- The command does not change or delete a line 0. -/
def FromLineOne : Command Line → Prop
  | .append _ _ => True
  | .change first _ _ => 1 ≤ first
  | .delete first _ => 1 ≤ first

/-- `$` is not used once lines are appended to the last of the base's `len` lines. -/
def EndsInBase (len : ℕ) : Bool → List (Command Line) → Prop
  | _, [] => True
  | appended, .append after _ :: cmds => EndsInBase len (appended || after == len) cmds
  | appended, .delete _ .dollar :: cmds => appended = false ∧ EndsInBase len appended cmds
  | appended, _ :: cmds => EndsInBase len appended cmds

def Proper (len : ℕ) (appended : Bool) (cmds : List (Command Line)) : Prop :=
  (∀ cmd ∈ cmds, FromLineOne cmd) ∧ EndsInBase len appended cmds

/-! ### Commands -/

section Commands
variable {s rest ptr ptr' : Bytes} {n m len start : ℕ} {stop : ℤ} {hadRange endWasEof : Bool}

theorem getLinenum_eq_some (h : getLinenum s = some (n, rest)) :
    ∃ digits, s = digits ++ rest ∧ Numeral digits n := by
  unfold getLinenum at h
  split at h
  case isFalse => cases h
  case isTrue hdigit =>
    split at h
    case isFalse => cases h
    case isTrue =>
      cases h
      refine ⟨s.takeWhile torIsdigit, List.takeWhile_append_dropWhile.symm, ?_, ?_, rfl⟩
      · cases s with
        | nil => exact Bool.noConfusion hdigit
        | cons c s =>
          have hc : torIsdigit c = true := hdigit
          rw [List.takeWhile_cons_of_pos hc]
          exact List.cons_ne_nil _ _
      · exact mem_takeWhile_pos _ _

theorem getLinenum_numeral (h : Numeral s n) (hn : n ≤ 2147483647)
    (hrest : ∀ x ∈ rest.head?, torIsdigit x = false) : getLinenum (s ++ rest) = some (n, rest) := by
  obtain ⟨hne, hdigits, rfl⟩ := h
  obtain ⟨htake, hdrop⟩ := span_append hdigits hrest
  cases s with
  | nil => exact absurd rfl hne
  | cons c s =>
    have hhead : (c :: s ++ rest).head?.any torIsdigit = true := hdigits c List.mem_cons_self
    rw [getLinenum, if_pos hhead, htake, hdrop, if_pos hn]

/-- The ends of the lines' range on a base of `len` lines. -/
def rangeEnd (len : ℕ) : Address → ℕ
  | .line n => n
  | .dollar => len

theorem parseRangeEnd_eq_ok (hstart : Numeral s start)
    (h : parseRangeEnd len start ptr = .ok (stop, hadRange, endWasEof, ptr')) :
    ∃ t last, ptr = t ++ ptr' ∧ Addresses (s ++ t) start last ∧ stop = rangeEnd len last ∧
      start ≤ rangeEnd len last ∧ (endWasEof = false → last ≠ .dollar) ∧
      (hadRange = false → t = [] ∧ last = .line start) := by
  unfold parseRangeEnd at h
  split at h
  · split at h
    case isTrue => cases h
    case isFalse hle =>
      cases h
      refine ⟨[44, 36], .dollar, rfl, .toEnd hstart, rfl, ?_, nofun, nofun⟩
      change start ≤ len
      omega
  · split at h
    · cases h
    · rename_i m ptr₁ hnum
      split at h
      case isTrue => cases h
      case isFalse hle =>
        cases h
        obtain ⟨digits, rfl, hdigits⟩ := getLinenum_eq_some hnum
        refine ⟨44 :: digits, .line m, rfl, .range hstart hdigits, rfl, ?_, nofun, nofun⟩
        exact (not_le.mp hle).le
  · cases h
    exact ⟨[], .line start, rfl, (List.append_nil s).symm ▸ .one hstart, rfl, le_rfl, nofun,
      fun _ => ⟨rfl, rfl⟩⟩

/-- The letter of an action. -/
def Action.letter : Action → UInt8
  | .a => 97
  | .c => 99
  | .d => 100

theorem parseAction_eq_ok {c : UInt8} {action : Action} (h : parseAction c = .ok action) :
    c = action.letter := by
  unfold parseAction at h
  split at h
  case isTrue hc =>
    cases h
    exact hc
  case isFalse =>
    split at h
    case isTrue hc =>
      cases h
      exact hc
    case isFalse =>
      split at h
      case isTrue hc =>
        cases h
        exact hc
      case isFalse => cases h

/-- A command that passed its checks, on a base of `len` lines of which `j` are left. -/
structure Parsed (len : ℕ) (j : ℤ) (line : Line) (cmd : EdCommand) (s : Bytes) (first : ℕ)
    (last : Address) : Prop where
  addresses : Addresses s first last
  line : cString line = s ++ [cmd.action.letter]
  start : cmd.start = first
  stop : cmd.stop = rangeEnd len last
  ordered : first ≤ rangeEnd len last
  left : (rangeEnd len last : ℤ) ≤ j
  append : cmd.action = .a → Numeral s first ∧ last = .line first
  change : cmd.action = .c → last ≠ .dollar

theorem parseCommand_eq_ok {j : ℤ} {line : Line} {cmd : EdCommand}
    (h : parseCommand len j line = .ok cmd) :
    ∃ s first last, Parsed len j line cmd s first last := by
  unfold parseCommand at h
  split at h
  case isTrue => cases h
  case isFalse =>
    split at h
    · cases h
    · rename_i start ptr hnum
      split at h
      · cases h
      · rename_i stop hadRange endWasEof ptr' hrange
        split at h
        case isTrue => cases h
        case isFalse hleft =>
          split at h
          · cases h
          · rename_i c
            obtain ⟨digits, hline, hdigits⟩ := getLinenum_eq_some hnum
            obtain ⟨t, last, rfl, haddr, hstop, hordered, heof, hone⟩ :=
              parseRangeEnd_eq_ok hdigits hrange
            cases haction : parseAction c with
            | error err =>
              rw [haction] at h
              cases h
            | ok action =>
              rw [haction] at h
              change checkAction start stop hadRange endWasEof action = .ok cmd at h
              unfold checkAction at h
              split at h
              case isTrue => cases h
              case isFalse hend =>
                split at h
                case isTrue => cases h
                case isFalse hadd =>
                  cases h
                  refine ⟨digits ++ t, start, last, ?_⟩
                  constructor
                  · exact haddr
                  · rw [hline, parseAction_eq_ok haction, List.append_assoc]
                  · rfl
                  · exact hstop
                  · exact hordered
                  · rw [← hstop]
                    exact not_lt.mp hleft
                  · intro ha
                    have hno : hadRange = false := by
                      cases hadRange with
                      | false => rfl
                      | true => exact absurd ⟨rfl, ha⟩ hadd
                    obtain ⟨rfl, hlast⟩ := hone hno
                    exact ⟨(List.append_nil digits).symm ▸ hdigits, hlast⟩
                  · intro hc
                    apply heof
                    cases endWasEof with
                    | false => rfl
                    | true =>
                      have hd : action ≠ .d := by
                        change action = .c at hc
                        rw [hc]
                        exact Action.noConfusion
                      exact absurd ⟨rfl, hd⟩ hend
          · cases h

end Commands

/-! ### The loops -/

section Loops
variable {cons1 diff cons2 text rest : List Line} {i j n start stop rounds : ℕ}

theorem smartlistGet_of_lt {sl : List Line} (h : i < sl.length) :
    smartlistGet sl i = .ok (sl.get ⟨i, h⟩) := by
  have hget : sl[(i : ℤ).toNat]? = some (sl.get ⟨i, h⟩) := List.getElem?_eq_getElem h
  rw [smartlistGet, if_neg (by omega), hget]

theorem addUnchanged_eq (hstop : stop ≤ j) (hj : j ≤ cons1.length) :
    addUnchanged cons1 stop j cons2 =
      .ok (stop, cons2 ++ ((cons1.take j).drop stop).reverse) := by
  induction j generalizing cons2 with
  | zero =>
    obtain rfl := Nat.le_zero.mp hstop
    simp [addUnchanged]
  | succ j ih =>
    rw [addUnchanged]
    by_cases hgt : stop ≤ j
    · have hlen : stop ≤ (cons1.take j).length := by
        rw [List.length_take]
        omega
      rw [if_pos (by omega), smartlistGet_of_lt hj]
      change addUnchanged cons1 stop j (cons2 ++ [cons1.get ⟨j, hj⟩]) = _
      rw [ih hgt (by omega), List.take_succ_eq_append_getElem hj, List.drop_append_of_le_length hlen,
        List.reverse_append, List.append_assoc]
      rfl
    · obtain rfl : stop = j + 1 := by omega
      rw [if_neg (by omega), List.drop_of_length_le (by rw [List.length_take]; omega),
        List.reverse_nil, List.append_nil]

theorem addUnchangedFrom_eq (hstop : stop ≤ j) (hj : j ≤ cons1.length) :
    addUnchangedFrom cons1 stop j cons2 =
      .ok (stop, cons2 ++ ((cons1.take j).drop stop).reverse) :=
  addUnchanged_eq hstop hj

/-- The unchanged lines that remain after the last command. -/
theorem addRemaining_eq (hj : j ≤ cons1.length) :
    addUnchangedFrom cons1 0 j cons2 = .ok (0, cons2 ++ (cons1.take j).reverse) :=
  addUnchangedFrom_eq (Nat.zero_le j) hj

theorem skipRemoved_eq (hstart : 1 ≤ start) (h : start ≤ j) :
    skipRemoved start j = (start - 1 : ℕ) := by
  induction j with
  | zero => omega
  | succ j ih =>
    rw [skipRemoved]
    by_cases hge : start ≤ j
    · rw [if_pos (by omega), ih hge]
    · rw [if_neg (by omega)]
      congr 1
      omega

theorem skipRemoved_zero : skipRemoved 0 j = -1 := by
  induction j with
  | zero => rfl
  | succ j ih => rw [skipRemoved, if_pos (by omega), ih]

theorem drop_eq_cons (h : i < diff.length) : diff.drop i = diff.get ⟨i, h⟩ :: diff.drop (i + 1) :=
  List.drop_eq_getElem_cons h

theorem findTerminator_eq_ok (hdrop : diff.drop i = text ++ [46] :: rest)
    (htext : ∀ t ∈ text, t ≠ [46]) (hrounds : diff.length ≤ i + rounds) :
    findTerminator diff rounds i = .ok (i + text.length) := by
  have hlen := congrArg List.length hdrop
  rw [List.length_drop, List.length_append, List.length_cons] at hlen
  induction text generalizing i rounds with
  | nil =>
    obtain ⟨rounds, rfl⟩ : ∃ k, rounds = k + 1 := ⟨rounds - 1, by omega⟩
    have hi : i < diff.length := by omega
    rw [drop_eq_cons hi] at hdrop
    have hline : diff.get ⟨i, hi⟩ = [46] := (List.cons.inj hdrop).1
    rw [findTerminator, smartlistGet_of_lt hi, hline]
    rfl
  | cons t text ih =>
    rw [List.length_cons] at hlen
    obtain ⟨rounds, rfl⟩ : ∃ k, rounds = k + 1 := ⟨rounds - 1, by omega⟩
    have hi : i < diff.length := by omega
    rw [drop_eq_cons hi] at hdrop
    obtain ⟨hline, hrest⟩ := List.cons.inj hdrop
    have hne : linesEq (diff.get ⟨i, hi⟩) [46] ≠ true := by
      rw [hline]
      exact fun heq => htext t List.mem_cons_self (linesEq_iff.mp heq)
    have hnext : findTerminator diff rounds (i + 1) = .ok (i + 1 + text.length) :=
      ih hrest (fun t ht => htext t (List.mem_cons_of_mem _ ht)) (by omega) (by omega)
    rw [findTerminator, smartlistGet_of_lt hi]
    change (if linesEq (diff.get ⟨i, hi⟩) [46] = true then _
      else if i + 1 = diff.length then _ else _) = _
    rw [if_neg hne, if_neg (by omega), hnext, List.length_cons]
    congr 1
    omega

theorem findTerminator_eq_error (hi : i < diff.length) (htext : ∀ t ∈ diff.drop i, t ≠ [46])
    (hrounds : diff.length ≤ i + rounds) : findTerminator diff rounds i = .error .unterminated := by
  induction rounds generalizing i with
  | zero => omega
  | succ rounds ih =>
    rw [drop_eq_cons hi] at htext
    have hne : linesEq (diff.get ⟨i, hi⟩) [46] ≠ true :=
      fun heq => htext _ List.mem_cons_self (linesEq_iff.mp heq)
    rw [findTerminator, smartlistGet_of_lt hi]
    change (if linesEq (diff.get ⟨i, hi⟩) [46] = true then _
      else if i + 1 = diff.length then _ else _) = _
    rw [if_neg hne]
    by_cases hlast : i + 1 = diff.length
    · rw [if_pos hlast]
    · rw [if_neg hlast]
      exact ih (by omega) (fun t ht => htext t (List.mem_cons_of_mem _ ht)) (by omega)

theorem addLines_eq (h : i + n < diff.length) :
    addLines diff i n cons2 = .ok (cons2 ++ ((diff.drop (i + 1)).take n).reverse) := by
  induction n generalizing cons2 with
  | zero => simp [addLines]
  | succ n ih =>
    have hn : n < (diff.drop (i + 1)).length := by
      rw [List.length_drop]
      omega
    have hget : (diff.drop (i + 1))[n] = diff.get ⟨i + (n + 1), h⟩ := by
      rw [List.getElem_drop]
      congr 1
      omega
    rw [addLines, smartlistGet_of_lt h]
    change addLines diff i n (cons2 ++ [diff.get ⟨i + (n + 1), h⟩]) = _
    rw [ih (by omega), List.take_succ_eq_append_getElem hn, hget, List.reverse_append,
      List.append_assoc]
    rfl

theorem addText_eq_ok (hdrop : diff.drop (i + 1) = text ++ [46] :: rest)
    (htext : ∀ t ∈ text, t ≠ [46]) (hne : text ≠ []) :
    addText diff i cons2 = .ok (i + 1 + text.length, cons2 ++ text.reverse) := by
  have hfind : findTerminator diff (diff.length - (i + 1)) (i + 1) = .ok (i + 1 + text.length) :=
    findTerminator_eq_ok hdrop htext (by omega)
  have hpos := List.length_pos_of_ne_nil hne
  have hlen := congrArg List.length hdrop
  rw [List.length_drop, List.length_append, List.length_cons] at hlen
  have htake : (diff.drop (i + 1)).take text.length = text := by
    rw [hdrop, List.take_left]
  have hcount : i + 1 + text.length - 1 - i = text.length := by omega
  rw [addText, hfind]
  change (if i + 1 + text.length - 1 = i then _ else
    (addLines diff i (i + 1 + text.length - 1 - i) cons2).bind _) = _
  rw [if_neg (by omega), hcount, addLines_eq (by omega), htake]
  rfl

theorem addText_cases (diff cons2 : List Line) (i : ℕ) :
    (∃ text rest, diff.drop (i + 1) = text ++ [46] :: rest ∧ (∀ t ∈ text, t ≠ [46]) ∧ text ≠ []) ∨
      addText diff i cons2 = .error .insertsNothing ∨
      addText diff i cons2 = .error .unterminated := by
  have hnothing : findTerminator diff (diff.length - (i + 1)) (i + 1) = .ok (i + 1) →
      addText diff i cons2 = .error .insertsNothing := by
    intro h
    rw [addText, h]
    exact if_pos rfl
  by_cases hdot : [46] ∈ diff.drop (i + 1)
  · obtain ⟨text, rest, hdrop, hnot⟩ := List.eq_append_cons_of_mem hdot
    have htext : ∀ t ∈ text, t ≠ [46] := fun t ht heq => hnot (heq ▸ ht)
    by_cases hne : text = []
    · right
      left
      apply hnothing
      rw [findTerminator_eq_ok hdrop htext (by omega), hne]
      rfl
    · exact .inl ⟨text, rest, hdrop, htext, hne⟩
  · right
    by_cases hi : i + 1 < diff.length
    · right
      have hnone : ∀ t ∈ diff.drop (i + 1), t ≠ [46] := fun t ht heq => hdot (heq ▸ ht)
      rw [addText, findTerminator_eq_error hi hnone (by omega)]
      rfl
    · left
      apply hnothing
      rw [Nat.sub_eq_zero_of_le (by omega)]
      rfl

end Loops

/-! ### A round -/

section Rounds
variable {cons1 diff cons2 cons2' text rest : List Line} {i j len first rounds : ℕ} {j' : ℤ}
  {line : Line} {cmd : EdCommand} {s : Bytes} {last : Address} {c : Command Line}
  {cmds : List (Command Line)}

/-- The position after a change or a deletion. -/
def afterRemoved (first : ℕ) : ℤ := if first = 0 then -1 else (first - 1 : ℕ)

theorem skipRemoved_parsed (h : Parsed len j line cmd s first last) :
    skipRemoved cmd.start (rangeEnd len last) = afterRemoved first := by
  rw [h.start]
  unfold afterRemoved
  split
  case isTrue hzero =>
    rw [hzero]
    exact skipRemoved_zero
  case isFalse hpos => exact skipRemoved_eq (Nat.one_le_iff_ne_zero.mpr hpos) h.ordered

theorem applyCommand_error {err : ApplyError} (hi : i < diff.length)
    (hparse : parseCommand cons1.length j' (diff.get ⟨i, hi⟩) = .error err) :
    applyCommand cons1 diff i j' cons2 = .error err := by
  rw [applyCommand, smartlistGet_of_lt hi]
  change (parseCommand cons1.length j' (diff.get ⟨i, hi⟩)).bind _ = _
  rw [hparse]
  rfl

theorem Parsed.rangeEnd_le (h : Parsed len j line cmd s first last) : rangeEnd len last ≤ j :=
  Int.ofNat_le.mp h.left

section Command
variable {appended : Bool} (hi : i < diff.length) (hj : j ≤ cons1.length)
  (h : Parsed cons1.length j (diff.get ⟨i, hi⟩) cmd s first last)
include hj h

theorem applyCommand_parsed (hparse : parseCommand cons1.length j (diff.get ⟨i, hi⟩) = .ok cmd) :
    applyCommand cons1 diff i j cons2 =
      let cons2 := cons2 ++ ((cons1.take j).drop (rangeEnd cons1.length last)).reverse
      let j := if cmd.action = .a then (rangeEnd cons1.length last : ℤ) else afterRemoved first
      if cmd.action = .d then .ok (i + 1, j, cons2)
      else (addText diff i cons2).bind fun r => .ok (r.1 + 1, j, r.2) := by
  rw [applyCommand, smartlistGet_of_lt hi]
  change (parseCommand cons1.length j (diff.get ⟨i, hi⟩)).bind _ = _
  rw [hparse]
  change (addUnchangedFrom cons1 cmd.stop j cons2).bind _ = _
  rw [h.stop, addUnchangedFrom_eq h.rangeEnd_le hj, ← skipRemoved_parsed h]
  rfl

theorem applyCommand_delete (hparse : parseCommand cons1.length j (diff.get ⟨i, hi⟩) = .ok cmd)
    (hd : cmd.action = .d) : applyCommand cons1 diff i j cons2 = .ok (i + 1, afterRemoved first,
      cons2 ++ ((cons1.take j).drop (rangeEnd cons1.length last)).reverse) := by
  rw [applyCommand_parsed hi hj h hparse]
  simp [hd]

theorem applyCommand_text (hparse : parseCommand cons1.length j (diff.get ⟨i, hi⟩) = .ok cmd)
    (hd : cmd.action ≠ .d) : applyCommand cons1 diff i j cons2 =
      (addText diff i (cons2 ++ ((cons1.take j).drop (rangeEnd cons1.length last)).reverse)).bind
        fun r => .ok (r.1 + 1, if cmd.action = .a then (rangeEnd cons1.length last : ℤ)
          else afterRemoved first, r.2) := by
  rw [applyCommand_parsed hi hj h hparse]
  exact if_neg hd

omit hj h

/-! ### What is accepted -/

theorem execute_append {n : ℕ} (h : n ≤ j) (hj : j ≤ cons1.length) :
    (Command.append n text).execute (cons1.take j ++ cons2.reverse) = some (cons1.take n ++
      (cons2 ++ ((cons1.take j).drop n).reverse ++ text.reverse).reverse) := by
  rw [Command.execute, insertAfter_of_le h hj, List.reverse_append, List.reverse_append,
    List.reverse_reverse, List.reverse_reverse]

theorem replaceRange_left {stop : ℕ} (hfirst : 1 ≤ first) (hrange : first ≤ stop) (h : stop ≤ j)
    (hj : j ≤ cons1.length) :
    replaceRange first stop text (cons1.take j ++ cons2.reverse) = some (cons1.take (first - 1) ++
      (cons2 ++ ((cons1.take j).drop stop).reverse ++ text.reverse).reverse) := by
  rw [replaceRange_of_le hfirst hrange h hj, List.reverse_append, List.reverse_append,
    List.reverse_reverse, List.reverse_reverse]

/-- Where no line was appended to the base, `$` is its last line. -/
theorem resolve_eq (hleft : rangeEnd cons1.length last ≤ j) (hj : j ≤ cons1.length)
    (hend : last = .dollar → j = cons1.length → cons2 = []) :
    last.resolve (cons1.take j ++ cons2.reverse) = rangeEnd cons1.length last := by
  cases last with
  | line n => rfl
  | dollar =>
    have hall : j = cons1.length := hj.antisymm hleft
    rw [hend rfl hall, hall, List.take_length]
    change (cons1 ++ []).length = cons1.length
    rw [List.append_nil]

/-- After a line 0 was deleted or changed, no command is accepted. -/
theorem applyCommands_exhausted (hrounds : diff.length ≤ i + rounds)
    (h : applyCommands cons1 diff rounds i (-1) cons2 = .ok (j', cons2')) : diff.drop i = [] := by
  apply List.drop_of_length_le
  by_contra hi
  rw [not_le] at hi
  obtain ⟨rounds, rfl⟩ : ∃ k, rounds = k + 1 := ⟨rounds - 1, by omega⟩
  rw [applyCommands, if_pos hi] at h
  cases hparse : parseCommand cons1.length (-1) (diff.get ⟨i, hi⟩) with
  | error err =>
    rw [applyCommand_error hi hparse] at h
    cases h
  | ok cmd =>
    obtain ⟨s, first, last, hparsed⟩ := parseCommand_eq_ok hparse
    have := hparsed.left
    omega

/-- What the rest of a script is to a run of the main loop: commands, and their execution. -/
def Follows (cons1 diff : List Line) (i j : ℕ) (cons2 : List Line) (appended : Bool) (j' : ℤ)
    (cons2' : List Line) : Prop :=
  ∃ cmds, Reads (diff.drop i) cmds ∧ (Proper cons1.length appended cmds →
    ∃ k : ℕ, j' = k ∧ k ≤ cons1.length ∧
      executeAll cmds (cons1.take j ++ cons2.reverse) = some (cons1.take k ++ cons2'.reverse))

omit h in
/-- One command more, before those that are followed. -/
theorem Follows.cons {c : Command Line} {i₁ j₁ : ℕ} {cons2₁ : List Line} {appended₁ : Bool}
    (hrest : Follows cons1 diff i₁ j₁ cons2₁ appended₁ j' cons2')
    (hreads : ∀ cmds, Reads (diff.drop i₁) cmds → Reads (diff.drop i) (c :: cmds))
    (hexec : ∀ cmds, EndsInBase cons1.length appended (c :: cmds) →
      EndsInBase cons1.length appended₁ cmds ∧ c.execute (cons1.take j ++ cons2.reverse) =
        some (cons1.take j₁ ++ cons2₁.reverse)) :
    Follows cons1 diff i j cons2 appended j' cons2' := by
  obtain ⟨cmds, hcmds, hfollows⟩ := hrest
  refine ⟨c :: cmds, hreads cmds hcmds, fun hproper => ?_⟩
  obtain ⟨hends, hstep⟩ := hexec cmds hproper.2
  obtain ⟨k, hk, hklen, hall⟩ :=
    hfollows ⟨fun c hc => hproper.1 c (List.mem_cons_of_mem _ hc), hends⟩
  refine ⟨k, hk, hklen, ?_⟩
  rw [executeAll, hstep, Option.bind_some, hall]

include hj h

theorem Follows.delete (hend : cons2 ≠ [] → j = cons1.length → appended = true)
    (hd : cmd.action = .d) (hfirst : first ≠ 0) (hrest : Follows cons1 diff (i + 1) (first - 1)
      (cons2 ++ ((cons1.take j).drop (rangeEnd cons1.length last)).reverse) appended j' cons2') :
    Follows cons1 diff i j cons2 appended j' cons2' := by
  have hleft := h.rangeEnd_le
  refine hrest.cons (c := .delete first last) (fun cmds hreads => ?_) fun cmds hends => ?_
  · rw [drop_eq_cons hi]
    apply Reads.delete h.addresses _ hreads
    rw [h.line, hd]
    rfl
  · have hlast : last = .dollar → j = cons1.length → cons2 = [] := by
      rintro rfl hall
      by_contra hne
      have happended := hend hne hall
      rw [EndsInBase, happended] at hends
      exact Bool.noConfusion hends.1
    constructor
    · cases last with
      | line n => exact hends
      | dollar => exact hends.2
    · rw [Command.execute, resolve_eq hleft hj hlast,
        replaceRange_left (Nat.one_le_iff_ne_zero.mpr hfirst) h.ordered hleft hj, List.reverse_nil,
        List.append_nil]

omit hj h in
theorem drop_after_text (hdrop : diff.drop (i + 1) = text ++ [46] :: rest) :
    diff.drop (i + 1 + text.length + 1) = rest := by
  rw [Nat.add_assoc (i + 1), ← List.drop_drop, hdrop, ← List.drop_drop, List.drop_left]
  rfl

theorem Follows.change (hc : cmd.action = .c) (hdrop : diff.drop (i + 1) = text ++ [46] :: rest)
    (htext : ∀ t ∈ text, t ≠ [46]) (hfirst : first ≠ 0)
    (hrest : Follows cons1 diff (i + 1 + text.length + 1) (first - 1)
      (cons2 ++ ((cons1.take j).drop (rangeEnd cons1.length last)).reverse ++ text.reverse)
      appended j' cons2') : Follows cons1 diff i j cons2 appended j' cons2' := by
  have hleft := h.rangeEnd_le
  have hlast : last = .dollar → j = cons1.length → cons2 = [] :=
    fun heq => absurd heq (h.change hc)
  refine hrest.cons (c := .change first last text) (fun cmds hreads => ?_) fun _ hends => ⟨hends, ?_⟩
  · rw [drop_after_text hdrop] at hreads
    rw [drop_eq_cons hi, hdrop]
    apply Reads.change h.addresses _ htext hreads
    rw [h.line, hc]
    rfl
  · rw [Command.execute, resolve_eq hleft hj hlast,
      replaceRange_left (Nat.one_le_iff_ne_zero.mpr hfirst) h.ordered hleft hj]

theorem Follows.append (ha : cmd.action = .a) (hdrop : diff.drop (i + 1) = text ++ [46] :: rest)
    (htext : ∀ t ∈ text, t ≠ [46])
    (hrest : Follows cons1 diff (i + 1 + text.length + 1) (rangeEnd cons1.length last)
      (cons2 ++ ((cons1.take j).drop (rangeEnd cons1.length last)).reverse ++ text.reverse)
      (appended || rangeEnd cons1.length last == cons1.length) j' cons2') :
    Follows cons1 diff i j cons2 appended j' cons2' := by
  obtain ⟨hnumeral, rfl⟩ := h.append ha
  have hleft : first ≤ j := Int.ofNat_le.mp h.left
  refine hrest.cons (c := .append first text) (fun cmds hreads => ?_)
    fun _ hends => ⟨hends, execute_append hleft hj⟩
  rw [drop_after_text hdrop] at hreads
  rw [drop_eq_cons hi, hdrop]
  apply Reads.append hnumeral _ htext hreads
  rw [h.line, ha]
  rfl

end Command

/-- A command on line 0 is the last one that is accepted. -/
theorem Follows.zero {appended : Bool} (hreads : Reads (diff.drop i) [c])
    (hzero : ¬ FromLineOne c) : Follows cons1 diff i j cons2 appended j' cons2' :=
  ⟨[c], hreads, fun hproper => absurd (hproper.1 c List.mem_cons_self) hzero⟩

theorem follows_nil {appended : Bool} (hi : diff.length ≤ i) (hj : j ≤ cons1.length) :
    Follows cons1 diff i j cons2 appended j cons2 := by
  refine ⟨[], ?_, fun _ => ⟨j, rfl, hj, rfl⟩⟩
  rw [List.drop_of_length_le hi]
  exact .nil

theorem applyCommand_follows {appended : Bool} {r : ℕ × ℤ × List Line} (hi : i < diff.length)
    (hj : j ≤ cons1.length) (hend : cons2 ≠ [] → j = cons1.length → appended = true)
    (h : applyCommand cons1 diff i j cons2 = .ok r)
    (hexhausted : i < r.1 → r.2.1 = -1 → diff.drop r.1 = [])
    (hrest : ∀ (j₁ : ℕ) (appended₁ : Bool), i < r.1 → r.2.1 = j₁ → j₁ ≤ cons1.length →
      (r.2.2 ≠ [] → j₁ = cons1.length → appended₁ = true) →
      Follows cons1 diff r.1 j₁ r.2.2 appended₁ j' cons2') :
    Follows cons1 diff i j cons2 appended j' cons2' := by
  cases hparse : parseCommand cons1.length j (diff.get ⟨i, hi⟩) with
  | error err =>
    rw [applyCommand_error hi hparse] at h
    cases h
  | ok cmd =>
    obtain ⟨s, first, last, hparsed⟩ := parseCommand_eq_ok hparse
    have hordered := hparsed.ordered
    have hleft := hparsed.rangeEnd_le
    -- After a removed range the position is inside of the base, unless the range is of line 0.
    have hremoved : first ≠ 0 → afterRemoved first = (first - 1 : ℕ) := fun hfirst => if_neg hfirst
    have hnone : first = 0 → afterRemoved first = -1 := fun hfirst => if_pos hfirst
    by_cases hd : cmd.action = .d
    · rw [applyCommand_delete hi hj hparsed hparse hd] at h
      cases h
      by_cases hfirst : first = 0
      · have hreads : Reads (diff.drop (i + 1)) [] := by
          rw [hexhausted (Nat.lt_succ_self i) (hnone hfirst)]
          exact .nil
        apply Follows.zero (c := .delete first last)
        · rw [drop_eq_cons hi]
          apply Reads.delete hparsed.addresses _ hreads
          rw [hparsed.line, hd]
          rfl
        · exact fun hone => absurd hfirst (Nat.one_le_iff_ne_zero.mp hone)
      · apply Follows.delete hi hj hparsed hend hd hfirst
        exact hrest (first - 1) appended (Nat.lt_succ_self i) (hremoved hfirst) (by omega)
          (fun _ _ => by omega)
    · rw [applyCommand_text hi hj hparsed hparse hd] at h
      rcases addText_cases diff
          (cons2 ++ ((cons1.take j).drop (rangeEnd cons1.length last)).reverse) i with
        ⟨text, rest, hdrop, htext, hne⟩ | herr | herr
      · rw [addText_eq_ok hdrop htext hne] at h
        cases h
        have hlt : i < i + 1 + text.length + 1 := by omega
        cases haction : cmd.action with
        | a =>
          apply Follows.append hi hj hparsed haction hdrop htext
          apply hrest _ _ hlt (if_pos haction) (by omega)
          intro _ hall
          rw [hall, beq_self_eq_true, Bool.or_true]
        | c =>
          have hj₁ : (if cmd.action = .a then (rangeEnd cons1.length last : ℤ)
              else afterRemoved first) = afterRemoved first := by
            rw [haction]
            rfl
          by_cases hfirst : first = 0
          · have hnil := hexhausted hlt (hj₁.trans (hnone hfirst))
            rw [drop_after_text hdrop] at hnil
            apply Follows.zero (c := .change first last text)
            · rw [drop_eq_cons hi, hdrop, hnil]
              apply Reads.change hparsed.addresses _ htext .nil
              rw [hparsed.line, haction]
              rfl
            · exact fun hone => absurd hfirst (Nat.one_le_iff_ne_zero.mp hone)
          · apply Follows.change hi hj hparsed haction hdrop htext hfirst
            exact hrest (first - 1) appended hlt (hj₁.trans (hremoved hfirst)) (by omega)
              (fun _ _ => by omega)
        | d => exact absurd haction hd
      · rw [herr] at h
        cases h
      · rw [herr] at h
        cases h

/-- A run of the main loop reads commands. -/
theorem applyCommands_follows {appended : Bool} (hrounds : diff.length ≤ i + rounds)
    (hj : j ≤ cons1.length) (hend : cons2 ≠ [] → j = cons1.length → appended = true)
    (h : applyCommands cons1 diff rounds i j cons2 = .ok (j', cons2')) :
    Follows cons1 diff i j cons2 appended j' cons2' := by
  induction rounds generalizing i j cons2 appended with
  | zero =>
    cases h
    exact follows_nil hrounds hj
  | succ rounds ih =>
    rw [applyCommands] at h
    split at h
    case isFalse hi =>
      cases h
      exact follows_nil (not_lt.mp hi) hj
    case isTrue hi =>
      cases hround : applyCommand cons1 diff i j cons2 with
      | error err =>
        rw [hround] at h
        cases h
      | ok r =>
        rw [hround] at h
        change applyCommands cons1 diff rounds r.1 r.2.1 r.2.2 = _ at h
        apply applyCommand_follows hi hj hend hround
        · intro hlt hnone
          rw [hnone] at h
          exact applyCommands_exhausted (by omega) h
        · intro j₁ appended₁ hlt hj₁ hle hend₁
          rw [hj₁] at h
          exact ih (by omega) hle hend₁ h

/-- What is accepted is read as commands, and the document is what they leave. -/
theorem applyEdDiff_reads {start : ℕ} {doc : List Line} (h : applyEdDiff cons1 diff start = .ok doc) :
    ∃ cmds, Reads (diff.drop start) cmds ∧
      (Proper cons1.length false cmds → executeAll cmds cons1 = some doc) := by
  unfold applyEdDiff at h
  cases hrun : applyCommands cons1 diff (diff.length - start) start cons1.length [] with
  | error err =>
    rw [hrun] at h
    cases h
  | ok r =>
    rw [hrun] at h
    change (addUnchangedFrom cons1 0 r.1 r.2).bind _ = _ at h
    have hfollows : Follows cons1 diff start cons1.length [] false r.1 r.2 :=
      applyCommands_follows (by omega) le_rfl (fun hne => absurd rfl hne) hrun
    obtain ⟨cmds, hreads, hexec⟩ := hfollows
    refine ⟨cmds, hreads, fun hproper => ?_⟩
    obtain ⟨k, hk, hle, hdoc⟩ := hexec hproper
    rw [List.take_length, List.reverse_nil, List.append_nil] at hdoc
    rw [hk, addRemaining_eq hle] at h
    cases h
    rw [hdoc, List.reverse_append, List.reverse_reverse]

end Rounds

end TorDaemon.ConsDiff
