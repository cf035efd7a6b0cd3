import Mathlib.Data.List.DropRight
import TorDaemon.Encoding.CString

/-! The lines of a configuration file, as they are read (`confline.c`). A branch that is marked as
unreachable, or a loop that would not end, is an outer `none`. -/
namespace TorDaemon.Encoding.Confline
open CString Library.NetworkOrder Library.Scanner
open SharedRandom (ascii isBlank isSpace)

section ParseLine

theorem comment_length_lt {line : Bytes} (h : line.head? = some 35) :
    (line.dropWhile (· ≠ 10)).length < line.length := by
  apply dropWhile_length_lt
  cases line with
  | nil => cases h
  | cons c line =>
    cases h
    simp

/-- The loop that skips until the first keyword. -/
def skipToKeyword (line : Bytes) : Bytes :=
  if _h : (line.dropWhile isSpace).head? = some 35 then
    skipToKeyword ((line.dropWhile isSpace).dropWhile (· ≠ 10))
  else line.dropWhile isSpace
termination_by line.length
decreasing_by
  have hle := dropWhile_length_le isSpace line
  have hlt := comment_length_lt _h
  omega

/-- The key, which ends at a space, at a comment or where the line is continued. -/
def keyOf : Bytes → Bytes
  | [] => []
  | c :: line =>
    if isSpace c ∨ c = 35 ∨ c = 92 ∧ line.head? = some 10 then [] else c :: keyOf line

/-- The loop that looks for the end of the line: what it went over, whether there was a
continuation, and where it stopped. -/
def lineEnd (continuation : Bool) : Bytes → Bytes × Bool × Bytes
  | [] => ([], continuation, [])
  | c :: line =>
    if c = 10 ∨ c = 35 ∧ !continuation then ([], continuation, c :: line)
    else if c = 92 ∧ line.head? = some 10 then
      let r := lineEnd true (line.drop 1)
      (c :: 10 :: r.1, r.2)
    else if c = 35 then
      let comment := line.takeWhile (· ≠ 10)
      let r := lineEnd continuation ((line.dropWhile (· ≠ 10)).drop 1)
      (c :: comment ++ (line.dropWhile (· ≠ 10)).take 1 ++ r.1, r.2)
    else
      let r := lineEnd continuation line
      (c :: r.1, r.2)
termination_by line => line.length
decreasing_by
  · rw [List.length_drop, List.length_cons]
    omega
  · have hle := dropWhile_length_le (· ≠ 10) line
    rw [List.length_drop, List.length_cons]
    omega
  · exact Nat.lt_succ_self _

/-- The loop that takes comments and line ends out of a continued value. -/
def joinContinued : Bytes → Bytes
  | [] => []
  | c :: v =>
    if c = 35 then joinContinued ((v.dropWhile (· ≠ 10)).drop 1)
    else if c = 92 ∧ v.head? = some 10 then joinContinued (v.drop 1)
    else c :: joinContinued v
termination_by v => v.length
decreasing_by
  · have hle := dropWhile_length_le (· ≠ 10) v
    rw [List.length_drop, List.length_cons]
    omega
  · rw [List.length_drop, List.length_cons]
    omega
  · exact Nat.lt_succ_self _

/-- What may follow a quoted value; `none` for excess data. A carriage return is skipped with the
line feed behind it, so that it is the next line that is looked at. -/
def behindQuoted (line : Bytes) : Option Bytes :=
  let line := if line.head? = some 13 then
      let line := line.drop 1
      if line.head? = some 10 then line.drop 1 else line
    else line
  if line = [] ∨ line.head? = some 35 ∨ line.head? = some 10 then some line else none

/-- A comment and spaces at the end. -/
def skipRest (line : Bytes) : Bytes :=
  (if line.head? = some 35 then line.dropWhile (· ≠ 10) else line).dropWhile isSpace

/-- `parse_config_line_from_str_verbose`: the key and the value, if there are any, and the pointer
that is returned. -/
def parseConfigLine (line : Bytes) : Option (Except Bytes (Option (Bytes × Bytes) × Bytes)) :=
  let line := skipToKeyword line
  if line = [] then some (.ok (none, []))
  else
    let key := keyOf line
    let val := (line.drop key.length).dropWhile isBlank
    if val.head? = some 34 then do
      match ← unescapeString val with
      | none => return .error (ascii "Invalid escape sequence in quoted string")
      | some (value, _, line) =>
        match behindQuoted (line.dropWhile isBlank) with
        | none => return .error (ascii "Excess data after quoted string")
        | some line => return .ok (some (key, value), skipRest line)
    else
      let r := lineEnd false val
      let value := r.1.rdropWhile isSpace
      let value := if r.2.1 then joinContinued value else value
      let line := if r.2.2.head? = some 10 then r.2.2.drop 1 else r.2.2
      some (.ok (some (key, value), skipRest line))

end ParseLine

section GetLines

inductive Command
  | normal
  | append
  | clear
  deriving DecidableEq

structure ConfigLine where
  key : Bytes
  value : Bytes
  command : Command
  deriving DecidableEq

def configLine (extended : Bool) (k v : Bytes) : ConfigLine :=
  if extended && k.head? = some 43 then ⟨k.drop 1, v, .append⟩
  else if extended && k.head? = some 47 then ⟨k.drop 1, [], .clear⟩
  else ⟨k, v, .normal⟩

/-- `config_get_lines_aux` without includes. The inner `none` is -1. A round that does not get ahead
would be repeated for ever. -/
def configGetLinesAux (extended : Bool) (string : Bytes) (list : List ConfigLine) :
    Option (Option (List ConfigLine)) := do
  match ← parseConfigLine string with
  | .error _ => return none
  | .ok (kv, rest) =>
    let list := list ++ (kv.map fun p => configLine extended p.1 p.2).toList
    if rest = [] then return some list
    else if _h : rest.length < string.length then configGetLinesAux extended rest list
    else none
termination_by string.length

def configGetLines (string : Bytes) (extended : Bool) : Option (Option (List ConfigLine)) :=
  configGetLinesAux extended string []

end GetLines

section Lines
variable {line s t rest : Bytes} {p : UInt8 → Bool}

/-- No line is continued. -/
def NoContinuation (t : Bytes) : Prop := ¬[92, 10] <:+: t

/-- The text from the end of a line on. -/
def LineEnds (rest : Bytes) : Prop := ∀ c ∈ rest.head?, c = 10

theorem NoContinuation.suffix (h : NoContinuation t) (hs : s <:+ t) : NoContinuation s :=
  fun hmark => h (hmark.trans hs.isInfix)

theorem NoContinuation.head (h : NoContinuation (92 :: t)) : t.head? ≠ some 10 := by
  intro hhead
  cases t with
  | nil => cases hhead
  | cons c t =>
    cases hhead
    exact h ⟨[], t, rfl⟩

theorem head_skipToKeyword (t : Bytes) :
    ∀ c ∈ (skipToKeyword t).head?, isSpace c = false ∧ c ≠ 35 := by
  fun_induction skipToKeyword t with
  | case1 _ _ ih => exact ih
  | case2 t hcomment =>
    intro c hc
    refine ⟨head_dropWhile isSpace t c hc, ?_⟩
    rintro rfl
    exact hcomment hc

theorem skipToKeyword_suffix (t : Bytes) : skipToKeyword t <:+ t := by
  fun_induction skipToKeyword t with
  | case1 t _ ih => exact ih.trans ((List.dropWhile_suffix _).trans (List.dropWhile_suffix _))
  | case2 t => exact List.dropWhile_suffix _

theorem LineEnds.stops (hrest : LineEnds rest) (hp : p 10 = false) :
    ∀ c ∈ rest.head?, p c = false := by
  intro c hc
  rwa [hrest c hc]

/-- What stops the search does so whatever is behind it. -/
theorem span_stops (hrest : ∀ c ∈ rest.head?, p c = false) (s : Bytes) :
    (s ++ rest).takeWhile p = s.takeWhile p ∧ (s ++ rest).dropWhile p = s.dropWhile p ++ rest := by
  induction s with
  | nil =>
    cases rest with
    | nil => exact ⟨rfl, rfl⟩
    | cons c rest =>
      have hc : p c = false := hrest c rfl
      simp [hc]
  | cons c s ih =>
    by_cases hc : p c = true
    · simp [hc, ih]
    · simp [hc]

theorem skipToKeyword_space (hs : ∀ c ∈ s, isSpace c = true) :
    skipToKeyword (s ++ t) = skipToKeyword t := by
  rw [skipToKeyword, List.dropWhile_append_of_pos hs, ← skipToKeyword]

theorem skipToKeyword_dropWhile (t : Bytes) :
    skipToKeyword (t.dropWhile isSpace) = skipToKeyword t := by
  conv_rhs => rw [← List.takeWhile_append_dropWhile (p := isSpace) (l := t)]
  exact (skipToKeyword_space (mem_takeWhile_pos isSpace t)).symm

theorem skipToKeyword_comment (h : t.head? = some 35) :
    skipToKeyword t = skipToKeyword (t.dropWhile (· ≠ 10)) := by
  have hspace : t.dropWhile isSpace = t := by
    cases t with
    | nil => rfl
    | cons c t =>
      cases h
      rfl
  conv_lhs => rw [skipToKeyword]
  rw [hspace, dif_pos h]

theorem skipToKeyword_behind (hrest : LineEnds rest) :
    skipToKeyword rest = skipToKeyword (rest.drop 1) := by
  cases rest with
  | nil => rfl
  | cons c rest =>
    obtain rfl := hrest c rfl
    refine skipToKeyword_space (s := [10]) fun c hc => ?_
    rw [List.mem_singleton.mp hc]
    rfl

theorem skipToKeyword_skipRest (t : Bytes) : skipToKeyword (skipRest t) = skipToKeyword t := by
  rw [skipRest, skipToKeyword_dropWhile]
  split
  · rename_i h
    exact (skipToKeyword_comment h).symm
  · rfl

/-- A line without an entry. -/
def isBlankLine (line : Bytes) : Bool :=
  let s := line.dropWhile isSpace
  s = [] || s.head? = some 35

theorem skipToKeyword_blank (hline : 10 ∉ line) (hblank : isBlankLine line = true)
    (hrest : LineEnds rest) : skipToKeyword (line ++ rest) = skipToKeyword (rest.drop 1) := by
  have hsplit := List.takeWhile_append_dropWhile (p := isSpace) (l := line)
  rw [← skipToKeyword_behind hrest, ← hsplit, List.append_assoc,
    skipToKeyword_space (mem_takeWhile_pos isSpace line)]
  simp only [isBlankLine, Bool.or_eq_true, decide_eq_true_eq] at hblank
  rcases hblank with hnil | hcomment
  · rw [hnil, List.nil_append]
  · have hno : 10 ∉ line.dropWhile isSpace := fun hmem => hline ((List.dropWhile_sublist _).mem hmem)
    have hhead : (line.dropWhile isSpace ++ rest).head? = some 35 := by
      rw [List.head?_append, hcomment]
      rfl
    rw [skipToKeyword_comment hhead, (span_stops (hrest.stops (by simp)) _).2,
      List.dropWhile_eq_nil_iff.mpr, List.nil_append]
    intro c hc
    have hne : c ≠ 10 := fun h => hno (h ▸ hc)
    simpa using hne

theorem skipToKeyword_entry (hblank : isBlankLine line = false) (rest : Bytes) :
    skipToKeyword (line ++ rest) = line.dropWhile isSpace ++ rest := by
  simp only [isBlankLine, Bool.or_eq_false_iff, decide_eq_false_iff_not] at hblank
  have hsplit := List.takeWhile_append_dropWhile (p := isSpace) (l := line)
  have hhead : ∀ x ∈ (line.dropWhile isSpace ++ rest).head?, isSpace x = false := by
    rw [List.head?_append_of_ne_nil _ hblank.1]
    exact head_dropWhile isSpace line
  have hdrop : (line ++ rest).dropWhile isSpace = line.dropWhile isSpace ++ rest := by
    conv_lhs => rw [← hsplit, List.append_assoc]
    exact (span_append (mem_takeWhile_pos isSpace line) hhead).2
  rw [skipToKeyword, hdrop, dif_neg]
  rw [List.head?_append_of_ne_nil _ hblank.1]
  exact hblank.2

def isKeyChar (c : UInt8) : Bool := !isSpace c && c ≠ 35

theorem keyOf_eq (h : NoContinuation t) : keyOf t = t.takeWhile isKeyChar := by
  induction t with
  | nil => rfl
  | cons c t ih =>
    have hnext : ¬(c = 92 ∧ t.head? = some 10) := by
      rintro ⟨rfl, hhead⟩
      exact h.head hhead
    rw [keyOf, ih (h.suffix (List.suffix_cons c t))]
    by_cases hspace : isSpace c = true
    · simp [hspace, isKeyChar]
    · by_cases hcomment : c = 35
      · simp [hcomment, isKeyChar]
      · simp [hspace, hcomment, hnext, isKeyChar]

theorem lineEnd_eq (h : NoContinuation t) : lineEnd false t =
    (t.takeWhile (fun c => c ≠ 10 && c ≠ 35), false, t.dropWhile fun c => c ≠ 10 && c ≠ 35) := by
  induction t with
  | nil =>
    rw [lineEnd]
    rfl
  | cons c t ih =>
    have hnext : ¬(c = 92 ∧ t.head? = some 10) := by
      rintro ⟨rfl, hhead⟩
      exact h.head hhead
    rw [lineEnd, ih (h.suffix (List.suffix_cons c t))]
    by_cases hline : c = 10
    · simp [hline]
    · by_cases hcomment : c = 35
      · simp [hcomment]
      · simp [hline, hcomment, hnext]

end Lines

section Progress
variable {s t a b r line tail : Bytes} {kv : Option (Bytes × Bytes)} {extended : Bool}
  {list : List ConfigLine}

theorem behindQuoted_suffix (h : behindQuoted tail = some r) : r <:+ tail := by
  simp only [behindQuoted] at h
  split_ifs at h <;> cases h
  · exact (List.drop_suffix _ _).trans (List.drop_suffix _ _)
  · exact List.drop_suffix _ _
  · exact List.suffix_refl _

theorem skipRest_suffix (s : Bytes) : skipRest s <:+ s := by
  rw [skipRest]
  split
  · exact (List.dropWhile_suffix _).trans (List.dropWhile_suffix _)
  · exact List.dropWhile_suffix _

section
variable (h : NoContinuation s)
include h

theorem drop_keyOf : s.drop (keyOf s).length = s.dropWhile isKeyChar := by
  calc
    s.drop (keyOf s).length
        = (s.takeWhile isKeyChar ++ s.dropWhile isKeyChar).drop (s.takeWhile isKeyChar).length := by
      rw [List.takeWhile_append_dropWhile, keyOf_eq h]
    _ = s.dropWhile isKeyChar := List.drop_left

theorem parseConfigLine_suffix
    (hparse : parseConfigLine s = some (.ok (kv, r))) :
    r <:+ (skipToKeyword s).dropWhile isKeyChar := by
  have hs := h.suffix (skipToKeyword_suffix s)
  simp only [parseConfigLine, drop_keyOf hs] at hparse
  generalize hval : ((skipToKeyword s).dropWhile isKeyChar).dropWhile isBlank = val at hparse
  have hsuffix : val <:+ (skipToKeyword s).dropWhile isKeyChar := hval ▸ List.dropWhile_suffix _
  have hval' := hs.suffix (hsuffix.trans (List.dropWhile_suffix _))
  simp only [lineEnd_eq hval', Bool.false_eq_true, if_false] at hparse
  split_ifs at hparse with hnil hquoted hline
  · cases hparse
    exact List.nil_suffix
  · cases hread : unescapeString val with
    | none => simp [hread] at hparse
    | some result =>
      rcases result with _ | ⟨value, n, tail⟩
      · simp [hread] at hparse
      cases hbehind : behindQuoted (tail.dropWhile isBlank) with
      | none => simp [hread, hbehind] at hparse
      | some line =>
        simp only [hread, hbehind, Option.bind_eq_bind, Option.bind_some, Option.pure_def,
          Option.some.injEq, Except.ok.injEq, Prod.mk.injEq] at hparse
        rw [← hparse.2]
        exact (skipRest_suffix line).trans <| (behindQuoted_suffix hbehind).trans <|
          (List.dropWhile_suffix _).trans <| (unescapeString_suffix hread).2.trans hsuffix
  · cases hparse
    exact (skipRest_suffix _).trans <| (List.drop_suffix _ _).trans <|
      (List.dropWhile_suffix _).trans hsuffix
  · cases hparse
    exact (skipRest_suffix _).trans <| (List.dropWhile_suffix _).trans hsuffix

/-- A round gets ahead, or it is the last one. -/
theorem parseConfigLine_lt
    (hparse : parseConfigLine s = some (.ok (kv, r))) :
    r = [] ∨ r.length < (skipToKeyword s).length := by
  have hsuffix := parseConfigLine_suffix h hparse
  have hhead := head_skipToKeyword s
  generalize skipToKeyword s = t at hsuffix hhead
  cases t with
  | nil => exact .inl (List.suffix_nil.mp hsuffix)
  | cons c t =>
    right
    obtain ⟨hspace, hcomment⟩ := hhead c rfl
    have hkey : isKeyChar c = true := by simp [isKeyChar, hspace, hcomment]
    exact hsuffix.length_le.trans_lt (dropWhile_length_lt (by simp [hkey]))

end

/-- A round goes by what is from the first keyword on. -/
theorem configGetLinesAux_congr (hb : NoContinuation b) (h : skipToKeyword a = skipToKeyword b) :
    configGetLinesAux extended a list = configGetLinesAux extended b list := by
  have hparse : parseConfigLine a = parseConfigLine b := by
    rw [parseConfigLine, parseConfigLine, h]
  rw [configGetLinesAux, configGetLinesAux, hparse]
  cases hresult : parseConfigLine b with
  | none => rfl
  | some result =>
    rcases result with _ | ⟨kv, r⟩
    · rfl
    have hlt := parseConfigLine_lt hb hresult
    have hle := (skipToKeyword_suffix b).length_le
    have hle' := (skipToKeyword_suffix a).length_le
    rw [h] at hle'
    by_cases hr : r = []
    · simp [hr]
    · have hlt := hlt.resolve_left hr
      simp [hr, show r.length < a.length by omega, show r.length < b.length by omega]

theorem configGetLinesAux_nil (extended : Bool) (list : List ConfigLine) :
    configGetLinesAux extended [] list = some (some list) := by
  have hskip : skipToKeyword [] = [] := by
    rw [skipToKeyword]
    rfl
  rw [configGetLinesAux]
  simp [parseConfigLine, hskip]

theorem configGetLinesAux_entry (hs : NoContinuation s) (ht : NoContinuation t)
    (hparse : parseConfigLine s = some (.ok (kv, r))) (hr : skipToKeyword r = skipToKeyword t) :
    configGetLinesAux extended s list = configGetLinesAux extended t
      (list ++ (kv.map fun p => configLine extended p.1 p.2).toList) := by
  have hle := (skipToKeyword_suffix s).length_le
  rw [← configGetLinesAux_congr ht hr,
    configGetLinesAux, hparse]
  rcases parseConfigLine_lt hs hparse with hnil | hlt
  · rw [hnil, configGetLinesAux_nil]
    rfl
  · have hlt' : r.length < s.length := by omega
    by_cases hnil : r = []
    · rw [hnil, configGetLinesAux_nil]
      rfl
    · simp [hnil, hlt']

end Progress

section ByLine
variable {line rest tail t key value : Bytes} {extended : Bool} {list : List ConfigLine}

/-- What a line is by itself. The tail is behind a quoted value and the blanks after it. -/
inductive LineKind
  | blank
  | plain (key value : Bytes)
  | badQuote
  | quoted (key value tail : Bytes)

def lineVal (line : Bytes) : Bytes :=
  ((line.dropWhile isSpace).dropWhile isKeyChar).dropWhile isBlank

def lineKind (line : Bytes) : LineKind :=
  if isBlankLine line then .blank
  else
    let key := (line.dropWhile isSpace).takeWhile isKeyChar
    if (lineVal line).head? = some 34 then
      match unescapeString (lineVal line) with
      | some (some (value, _, tail)) => .quoted key value (tail.dropWhile isBlank)
      | _ => .badQuote
    else .plain key (((lineVal line).takeWhile fun c => c ≠ 10 && c ≠ 35).rdropWhile isSpace)

/-- What may be behind a quoted value, given the text from the end of the line on. -/
def Follows (tail rest : Bytes) : Prop :=
  tail = [] ∨ tail.head? = some 35 ∨ tail.take 2 = [13, 35] ∨
    tail = [13] ∧ ∀ c ∈ (rest.drop 1).head?, c = 35 ∨ c = 10

instance (tail rest : Bytes) : Decidable (Follows tail rest) :=
  inferInstanceAs (Decidable (_ ∨ _))

/-- The entry of a line, if it is not refused. -/
def accepted (line rest : Bytes) : Option (Option (Bytes × Bytes)) :=
  match lineKind line with
  | .blank => some none
  | .plain key value => some (some (key, value))
  | .badQuote => none
  | .quoted key value tail => if Follows tail rest then some (some (key, value)) else none

theorem behindQuoted_follows (htail : 10 ∉ tail) (hrest : LineEnds rest) (h : Follows tail rest) :
    ∃ t, behindQuoted (tail ++ rest) = some t ∧ skipToKeyword t = skipToKeyword (rest.drop 1) := by
  have hcomment (t : Bytes) (ht : 10 ∉ t) (hhead : t.head? = some 35) :
      skipToKeyword (t ++ rest) = skipToKeyword (rest.drop 1) := by
    refine skipToKeyword_blank ht ?_ hrest
    cases t with
    | nil => cases hhead
    | cons c t =>
      cases hhead
      rfl
  rcases h with rfl | hhead | hreturn | ⟨rfl, hnext⟩
  · refine ⟨rest, ?_, skipToKeyword_behind hrest⟩
    cases rest with
    | nil => rfl
    | cons c rest =>
      obtain rfl := hrest c rfl
      rfl
  · refine ⟨tail ++ rest, ?_, hcomment tail htail hhead⟩
    cases tail with
    | nil => cases hhead
    | cons c tail =>
      cases hhead
      rfl
  · rcases tail with _ | ⟨c, _ | ⟨d, tail⟩⟩
    · cases hreturn
    · cases hreturn
    · cases hreturn
      exact ⟨35 :: tail ++ rest, rfl, hcomment _ (fun hmem => htail (.tail _ hmem)) rfl⟩
  · refine ⟨rest.drop 1, ?_, rfl⟩
    cases rest with
    | nil => rfl
    | cons c rest =>
      obtain rfl := hrest c rfl
      cases rest with
      | nil => rfl
      | cons d rest => rcases hnext d rfl with rfl | rfl <;> rfl

theorem behindQuoted_not_follows (htail : 10 ∉ tail) (hrest : LineEnds rest)
    (h : ¬Follows tail rest) : behindQuoted (tail ++ rest) = none := by
  simp only [Follows, not_or, not_and] at h
  obtain ⟨hnil, hhead, hreturn, hnext⟩ := h
  rcases tail with _ | ⟨c, tail⟩
  · exact absurd rfl hnil
  have hc : c ≠ 10 := fun h => htail (h ▸ .head _)
  have hcomment : c ≠ 35 := fun h => hhead (by rw [h]; rfl)
  by_cases hcr : c = 13
  · subst hcr
    rcases tail with _ | ⟨d, tail⟩
    · rcases rest with _ | ⟨l, _ | ⟨d, rest⟩⟩
      · simp at hnext
      · simp at hnext
      · obtain rfl := hrest l rfl
        simp only [List.drop_succ_cons, List.drop_zero, List.head?_cons, Option.mem_def,
          Option.some.injEq, forall_eq', forall_const, not_or] at hnext
        simp [behindQuoted, hnext]
    · have hd : d ≠ 10 := fun h => htail (h ▸ .tail _ (.head _))
      have hdc : d ≠ 35 := fun h => hreturn (by rw [h]; rfl)
      simp [behindQuoted, hd, hdc]
  · simp [behindQuoted, hc, hcomment, hcr]

theorem lineVal_suffix (line : Bytes) : lineVal line <:+ line :=
  (List.dropWhile_suffix _).trans <| (List.dropWhile_suffix _).trans (List.dropWhile_suffix _)

section
variable (hrest : LineEnds rest)
include hrest

/-- The value of a line is found without what is behind it. -/
theorem lineVal_append : ((line.dropWhile isSpace ++ rest).dropWhile isKeyChar).dropWhile isBlank =
      lineVal line ++ rest := by
  rw [(span_stops (hrest.stops rfl) _).2, (span_stops (hrest.stops rfl) _).2, lineVal]

theorem head_lineVal : (lineVal line ++ rest).head? = some 34 ↔ (lineVal line).head? = some 34 := by
  cases lineVal line with
  | nil =>
    cases rest with
    | nil => rfl
    | cons c rest =>
      obtain rfl := hrest c rfl
      simp
  | cons c v => rfl

theorem LineEnds.scanString : scanString rest = some none := by
  cases rest with
  | nil => rw [CString.scanString]
  | cons c rest =>
    obtain rfl := hrest c rfl
    rw [CString.scanString]
    simp

end

theorem entry_parts (h : NoContinuation (line ++ rest)) (hrest : LineEnds rest)
    (hblank : isBlankLine line = false) : ∃ s, skipToKeyword (line ++ rest) = s ∧ s ≠ [] ∧
      keyOf s = (line.dropWhile isSpace).takeWhile isKeyChar ∧
        (s.drop ((line.dropWhile isSpace).takeWhile isKeyChar).length).dropWhile isBlank =
          lineVal line ++ rest := by
  have hs := h.suffix (skipToKeyword_suffix _)
  rw [skipToKeyword_entry hblank] at hs
  have hkey : keyOf (line.dropWhile isSpace ++ rest) =
      (line.dropWhile isSpace).takeWhile isKeyChar := by
    rw [keyOf_eq hs, (span_stops (hrest.stops rfl) _).1]
  refine ⟨_, skipToKeyword_entry hblank rest, ?_, hkey, ?_⟩
  · simp only [isBlankLine, Bool.or_eq_false_iff, decide_eq_false_iff_not] at hblank
    exact List.append_ne_nil_of_left_ne_nil hblank.1 rest
  · rw [← hkey, drop_keyOf hs, lineVal_append hrest]

theorem parseConfigLine_plain (h : NoContinuation (line ++ rest)) (hline : 10 ∉ line)
    (hrest : LineEnds rest) (hkind : lineKind line = .plain key value) :
    ∃ t, parseConfigLine (line ++ rest) = some (.ok (some (key, value), t)) ∧
      skipToKeyword t = skipToKeyword (rest.drop 1) := by
  simp only [lineKind] at hkind
  split_ifs at hkind with hblank hquoted
  · split at hkind <;> cases hkind
  cases hkind
  obtain ⟨s, hskip, hne, hkey, hval⟩ := entry_parts h hrest (by simpa using hblank)
  have hcont : NoContinuation (lineVal line ++ rest) := by
    refine h.suffix ?_
    obtain ⟨before, hbefore⟩ := lineVal_suffix line
    exact ⟨before, by rw [← List.append_assoc, hbefore]⟩
  have hplain := mt (head_lineVal hrest).mp hquoted
  obtain ⟨htake, hdrop⟩ := span_stops (p := fun c => c ≠ 10 && c ≠ 35) (hrest.stops rfl)
    (lineVal line)
  simp only [parseConfigLine, hskip, hne, if_false, hval, hplain, lineEnd_eq hcont,
    Bool.false_eq_true, htake, hdrop, hkey]
  refine ⟨_, rfl, ?_⟩
  rw [skipToKeyword_skipRest]
  have hw : 10 ∉ (lineVal line).dropWhile fun c => c ≠ 10 && c ≠ 35 := fun hmem =>
    hline (((List.dropWhile_suffix _).trans (lineVal_suffix line)).mem hmem)
  have hhead := head_dropWhile (fun c => c ≠ 10 && c ≠ 35) (lineVal line)
  generalize (lineVal line).dropWhile (fun c => c ≠ 10 && c ≠ 35) = w at hw hhead
  cases w with
  | nil =>
    rw [List.nil_append, ← skipToKeyword_behind hrest]
    split
    · exact (skipToKeyword_behind hrest).symm
    · rfl
  | cons c w =>
    have hc : c ≠ 10 := fun h => hw (h ▸ .head _)
    have hcomment : c = 35 := by simpa [hc] using hhead c rfl
    rw [if_neg (by simp [hc])]
    refine skipToKeyword_blank hw ?_ hrest
    rw [hcomment]
    rfl

theorem parseConfigLine_quoted (value tail : Bytes) (h : NoContinuation (line ++ rest)) (hrest : LineEnds rest)
    (hblank : isBlankLine line = false) (hquoted : (lineVal line).head? = some 34) :
    (unescapeString (lineVal line) = some none →
      ∃ e, parseConfigLine (line ++ rest) = some (.error e)) ∧
    ∀ n, unescapeString (lineVal line) = some (some (value, n, tail)) →
      (behindQuoted (tail.dropWhile isBlank ++ rest) = none →
        ∃ e, parseConfigLine (line ++ rest) = some (.error e)) ∧
      ∀ t, behindQuoted (tail.dropWhile isBlank ++ rest) = some t →
        parseConfigLine (line ++ rest) = some (.ok
          (some ((line.dropWhile isSpace).takeWhile isKeyChar, value), skipRest t)) := by
  obtain ⟨s, hskip, hne, hkey, hval⟩ := entry_parts h hrest hblank
  have hread := unescapeString_append (fun c hc => .inl (hrest c hc)) hrest.scanString (lineVal line)
  have hparse := (head_lineVal hrest).mpr hquoted
  refine ⟨fun hnone => ?_, fun n hsome => ?_⟩
  · rw [hnone] at hread
    simp [parseConfigLine, hskip, hne, hkey, hval, hparse, hread]
  · rw [hsome] at hread
    have htail := (span_stops (hrest.stops (p := isBlank) rfl) tail).2
    refine ⟨fun hnone => ?_, fun t ht => ?_⟩
    · simp [parseConfigLine, hskip, hne, hkey, hval, hparse, hread, htail, hnone]
    · simp only [parseConfigLine, hskip, hne, if_false, hval, hparse, if_true, hread, htail, ht,
        hkey, Option.map_some, Option.bind_eq_bind, Option.bind_some]
      rfl

theorem lineKind_blank (h : lineKind line = .blank) : isBlankLine line = true := by
  simp only [lineKind] at h
  split_ifs at h with hblank hquoted
  · exact hblank
  · split at h <;> cases h

theorem lineKind_badQuote (h : lineKind line = .badQuote) : isBlankLine line = false ∧
    (lineVal line).head? = some 34 ∧ unescapeString (lineVal line) = some none := by
  simp only [lineKind] at h
  split_ifs at h with hblank hquoted
  obtain ⟨result, hresult⟩ := (passes_agree (lineVal line)).returns
  rw [hresult] at h ⊢
  rcases result with _ | ⟨value, n, tail⟩
  · exact ⟨by simpa using hblank, hquoted, rfl⟩
  · cases h

theorem lineKind_quoted (h : lineKind line = .quoted key value tail) : isBlankLine line = false ∧
    (lineVal line).head? = some 34 ∧ key = (line.dropWhile isSpace).takeWhile isKeyChar ∧
      ∃ n t, unescapeString (lineVal line) = some (some (value, n, t)) ∧
        tail = t.dropWhile isBlank := by
  simp only [lineKind] at h
  split_ifs at h with hblank hquoted
  obtain ⟨result, hresult⟩ := (passes_agree (lineVal line)).returns
  rw [hresult] at h ⊢
  rcases result with _ | ⟨value, n, t⟩ <;> cases h
  exact ⟨by simpa using hblank, hquoted, rfl, n, t, rfl, rfl⟩

theorem lineKind_tail (hline : 10 ∉ line) (h : lineKind line = .quoted key value tail) :
    10 ∉ tail := by
  obtain ⟨-, -, -, n, t, hread, rfl⟩ := lineKind_quoted h
  have hsuffix := (List.dropWhile_suffix isBlank).trans <|
    (unescapeString_suffix hread).2.trans (lineVal_suffix line)
  exact fun hmem => hline (hsuffix.mem hmem)

theorem configGetLinesAux_accepted {entry : Option (Bytes × Bytes)}
    (h : NoContinuation (line ++ rest)) (hline : 10 ∉ line) (hrest : LineEnds rest)
    (hentry : accepted line rest = some entry) :
    configGetLinesAux extended (line ++ rest) list = configGetLinesAux extended (rest.drop 1)
      (list ++ (entry.map fun p => configLine extended p.1 p.2).toList) := by
  have ht := h.suffix ((List.drop_suffix 1 rest).trans (List.suffix_append line rest))
  cases hkind : lineKind line with
  | blank =>
    simp only [accepted, hkind, Option.some.injEq] at hentry
    subst hentry
    rw [configGetLinesAux_congr ht (skipToKeyword_blank hline (lineKind_blank hkind) hrest)]
    simp
  | plain key value =>
    simp only [accepted, hkind, Option.some.injEq] at hentry
    subst hentry
    obtain ⟨t, hparse, hskip⟩ := parseConfigLine_plain h hline hrest hkind
    exact configGetLinesAux_entry h ht hparse hskip
  | badQuote =>
    simp [accepted, hkind] at hentry
  | quoted key value tail =>
    simp only [accepted, hkind] at hentry
    split_ifs at hentry with hfollows
    cases hentry
    obtain ⟨t, hbehind, hskip⟩ := behindQuoted_follows (lineKind_tail hline hkind) hrest hfollows
    obtain ⟨hblank, hquoted, rfl, n, tail', hread, rfl⟩ := lineKind_quoted hkind
    have hparse := ((parseConfigLine_quoted _ _ h hrest hblank hquoted).2 n hread).2 t hbehind
    exact configGetLinesAux_entry h ht hparse (by rw [skipToKeyword_skipRest, hskip])

theorem configGetLinesAux_refused (h : NoContinuation (line ++ rest)) (hline : 10 ∉ line)
    (hrest : LineEnds rest) (hentry : accepted line rest = none) :
    configGetLinesAux extended (line ++ rest) list = some none := by
  have herror : ∃ e, parseConfigLine (line ++ rest) = some (.error e) := by
    cases hkind : lineKind line with
    | blank => simp [accepted, hkind] at hentry
    | plain key value => simp [accepted, hkind] at hentry
    | badQuote =>
      obtain ⟨hblank, hquoted, hread⟩ := lineKind_badQuote hkind
      exact (parseConfigLine_quoted [] [] h hrest hblank hquoted).1 hread
    | quoted key value tail =>
      have hfollows : ¬Follows tail rest := by simpa [accepted, hkind] using hentry
      have hbehind := behindQuoted_not_follows (lineKind_tail hline hkind) hrest hfollows
      obtain ⟨hblank, hquoted, rfl, n, tail', hread, rfl⟩ := lineKind_quoted hkind
      exact ((parseConfigLine_quoted _ _ h hrest hblank hquoted).2 n hread).1 hbehind
  obtain ⟨e, hparse⟩ := herror
  rw [configGetLinesAux, hparse]
  rfl

end ByLine

section Endings
variable {line rest z text : Bytes} {extended : Bool} {list : List ConfigLine}

/-- The lines, each with the text from its end on. -/
def linesOf (text : Bytes) : List (Bytes × Bytes) :=
  (text.takeWhile (· ≠ 10), text.dropWhile (· ≠ 10)) ::
    if _h : text.dropWhile (· ≠ 10) = [] then [] else linesOf ((text.dropWhile (· ≠ 10)).drop 1)
termination_by text.length
decreasing_by
  have hle := dropWhile_length_le (· ≠ 10) text
  have hpos := List.length_pos_iff.mpr _h
  rw [List.length_drop]
  omega

theorem linesOf_last (hline : 10 ∉ line) : linesOf line = [(line, [])] := by
  have hall : ∀ c ∈ line, decide (c ≠ 10) = true := by
    intro c hc
    have hne : c ≠ 10 := fun h => hline (h ▸ hc)
    simpa using hne
  rw [linesOf, List.takeWhile_eq_self_iff.mpr hall, List.dropWhile_eq_nil_iff.mpr hall]
  rfl

theorem linesOf_cons (hline : 10 ∉ line) (z : Bytes) :
    linesOf (line ++ 10 :: z) = (line, 10 :: z) :: linesOf z := by
  have hall : ∀ c ∈ line, decide (c ≠ 10) = true := by
    intro c hc
    have hne : c ≠ 10 := fun h => hline (h ▸ hc)
    simpa using hne
  rw [linesOf, takeWhile_until hall rfl, dropWhile_until hall rfl]
  simp

theorem line_induction {P : Bytes → Prop} (last : ∀ line, 10 ∉ line → P line)
    (cons : ∀ line z, 10 ∉ line → P z → P (line ++ 10 :: z)) (text : Bytes) : P text := by
  induction hn : text.length using Nat.strong_induction_on generalizing text with
  | _ n ih =>
    by_cases hmem : 10 ∈ text
    · obtain ⟨line, z, rfl, hline⟩ := List.eq_append_cons_of_mem hmem
      refine cons line z hline (ih z.length ?_ z rfl)
      rw [← hn, List.length_append, List.length_cons]
      omega
    · exact last text hmem

/-- Every line feed as carriage return and line feed. -/
def crlf (text : Bytes) : Bytes := text.flatMap fun c => if c = 10 then [13, 10] else [c]

theorem crlf_line (hline : 10 ∉ line) : crlf line = line := by
  induction line with
  | nil => rfl
  | cons c line ih =>
    have hc : c ≠ 10 := fun h => hline (h ▸ .head _)
    have hrest := ih fun hmem => hline (.tail _ hmem)
    rw [crlf] at hrest ⊢
    rw [List.flatMap_cons, hrest, if_neg hc]
    rfl

theorem crlf_cons (hline : 10 ∉ line) (z : Bytes) :
    crlf (line ++ 10 :: z) = line ++ [13] ++ 10 :: crlf z := by
  have happend : crlf (line ++ 10 :: z) = crlf line ++ ([13, 10] ++ crlf z) := by
    simp [crlf]
  rw [happend, crlf_line hline]
  simp

theorem head_crlf (z : Bytes) : (crlf z).head? = z.head?.map fun c => if c = 10 then 13 else c := by
  cases z with
  | nil => rfl
  | cons c z =>
    rw [crlf, List.flatMap_cons]
    by_cases hc : c = 10 <;> simp [hc]

theorem crlf_noContinuation (text : Bytes) : NoContinuation (crlf text) := by
  induction text with
  | nil => exact fun h => absurd h (by decide)
  | cons c text ih =>
    have hhead : (crlf text).head? ≠ some 10 := by
      rw [head_crlf]
      cases text.head? with
      | none => simp
      | some c =>
        by_cases hc : c = 10 <;> simp [hc]
    have hcons : crlf (c :: text) = (if c = 10 then [13, 10] else [c]) ++ crlf text := rfl
    rw [NoContinuation] at ih ⊢
    rw [hcons]
    by_cases hc : c = 10
    · rw [if_pos hc]
      simpa [List.infix_cons_iff] using ih
    · rw [if_neg hc, List.singleton_append, List.infix_cons_iff, not_or]
      refine ⟨?_, ih⟩
      intro hprefix
      obtain ⟨-, hline⟩ := List.cons_prefix_cons.mp hprefix
      obtain ⟨t, ht⟩ := hline
      exact hhead (by rw [← ht]; rfl)

/-- The entries of the lines, if none is refused. -/
def entries (lines : List (Bytes × Bytes)) : Option (List (Bytes × Bytes)) :=
  (lines.mapM fun l => accepted l.1 l.2).map List.reduceOption

theorem entries_cons (l : Bytes × Bytes) (ls : List (Bytes × Bytes)) : entries (l :: ls) =
    (accepted l.1 l.2).bind fun entry => (entries ls).map fun es => entry.toList ++ es := by
  simp only [entries, List.mapM_cons, Option.bind_eq_bind, Option.pure_def]
  cases accepted l.1 l.2 with
  | none => rfl
  | some entry =>
    cases ls.mapM fun l => accepted l.1 l.2 with
    | none => rfl
    | some es => cases entry <;> rfl

theorem entries_eq_none {ls : List (Bytes × Bytes)} :
    entries ls = none ↔ ∃ l ∈ ls, accepted l.1 l.2 = none := by
  induction ls with
  | nil => simp [entries]
  | cons l ls ih =>
    rw [entries_cons, List.exists_mem_cons_iff, ← ih]
    cases accepted l.1 l.2 <;> simp

theorem configGetLinesAux_eq (h : NoContinuation text) :
    configGetLinesAux extended text list = some ((entries (linesOf text)).map fun es =>
      list ++ es.map fun p => configLine extended p.1 p.2) := by
  induction text using line_induction generalizing list with
  | last line hline =>
    rw [← List.append_nil line] at h
    have hrest : LineEnds [] := fun c hc => by cases hc
    rw [linesOf_last hline, entries_cons]
    cases hentry : accepted line [] with
    | none =>
      have hrefused : configGetLinesAux extended (line ++ []) list = some none :=
        configGetLinesAux_refused h hline hrest hentry
      rwa [List.append_nil] at hrefused
    | some entry =>
      have haccepted : configGetLinesAux extended (line ++ []) list = _ :=
        configGetLinesAux_accepted h hline hrest hentry
      rw [List.append_nil, List.drop_nil, configGetLinesAux_nil] at haccepted
      rw [haccepted]
      cases entry <;> rfl
  | cons line z hline ih =>
    have hrest : LineEnds (10 :: z) := fun c hc => (Option.some.inj hc).symm
    have hz := h.suffix ((List.suffix_cons 10 z).trans (List.suffix_append line _))
    rw [linesOf_cons hline, entries_cons]
    cases hentry : accepted line (10 :: z) with
    | none => exact configGetLinesAux_refused h hline hrest hentry
    | some entry =>
      rw [configGetLinesAux_accepted h hline hrest hentry, List.drop_one, List.tail_cons, ih hz,
        Option.bind_some, Option.map_map]
      cases entry <;> simp [Function.comp_def]

def LineKind.withReturn : LineKind → LineKind
  | .quoted key value tail => .quoted key value (tail ++ [13])
  | kind => kind

theorem isBlankLine_return (line : Bytes) : isBlankLine (line ++ [13]) = isBlankLine line := by
  cases hs : line.dropWhile isSpace with
  | nil =>
    have hall := List.dropWhile_eq_nil_iff.mp hs
    have hreturn : (line ++ [13]).dropWhile isSpace = [] := by
      rw [List.dropWhile_append_of_pos hall]
      rfl
    simp [isBlankLine, hs, hreturn]
  | cons c s =>
    have hreturn : (line ++ [13]).dropWhile isSpace = c :: s ++ [13] := by
      rw [List.dropWhile_append, hs]
      rfl
    simp [isBlankLine, hs, hreturn]

theorem value_return (v : Bytes) :
    ((v ++ [13]).takeWhile fun c => c ≠ 10 && c ≠ 35).rdropWhile isSpace =
      (v.takeWhile fun c => c ≠ 10 && c ≠ 35).rdropWhile isSpace := by
  by_cases hall : ∀ c ∈ v, (c ≠ 10 && c ≠ 35) = true
  · rw [List.takeWhile_append_of_pos hall, List.takeWhile_eq_self_iff.mpr hall]
    exact List.rdropWhile_concat_pos isSpace v 13 rfl
  · rw [List.takeWhile_append, if_neg]
    intro hlength
    exact hall (List.takeWhile_eq_self_iff.mp ((List.takeWhile_prefix _).eq_of_length hlength))

/-- A carriage return changes what is behind a quoted value, and nothing else. -/
theorem lineKind_return (line : Bytes) : lineKind (line ++ [13]) = (lineKind line).withReturn := by
  have hstop {p : UInt8 → Bool} (hp : p 13 = false) : ∀ c ∈ ([13] : Bytes).head?, p c = false := by
    intro c hc
    cases hc
    exact hp
  rw [lineKind, isBlankLine_return, lineKind]
  by_cases hblank : isBlankLine line = true
  · simp [hblank, LineKind.withReturn]
  have hentry : line.dropWhile isSpace ≠ [] := by
    intro hnil
    simp [isBlankLine, hnil] at hblank
  have hs : (line ++ [13]).dropWhile isSpace = line.dropWhile isSpace ++ [13] := by
    rw [List.dropWhile_append, if_neg (by simpa using hentry)]
  have hkey := (span_stops (hstop (p := isKeyChar) rfl) (line.dropWhile isSpace)).1
  have hval : lineVal (line ++ [13]) = lineVal line ++ [13] := by
    rw [lineVal, hs, (span_stops (hstop rfl) _).2, (span_stops (hstop rfl) _).2, ← lineVal]
  have hhead : (lineVal line ++ [13]).head? = some 34 ↔ (lineVal line).head? = some 34 := by
    cases lineVal line <;> simp
  have hread := unescapeString_append (t := [13]) (fun c hc => .inr (Option.some.inj hc).symm)
    (by simp [scanString]) (lineVal line)
  simp only [hblank, Bool.false_eq_true, if_false, hs, hkey, hval, hhead, hread, value_return]
  split
  · obtain ⟨result, hresult⟩ := (passes_agree (lineVal line)).returns
    rw [hresult]
    rcases result with _ | ⟨value, n, tail⟩
    · rfl
    · simp only [Option.map_some, (span_stops (hstop (p := isBlank) rfl) tail).2]
      rfl
  · rfl

/-- What is looked at instead of the end of a line, if it ends in carriage return and line feed. -/
def LooksBehind (tail z : Bytes) : Prop := tail = [13] ∨ tail = [] ∧ ∃ c ∈ z.head?, c ≠ 35

theorem follows_return (tail z : Bytes) : Follows (tail ++ [13]) (10 :: crlf z) ↔
    Follows tail (10 :: z) ∧ ¬LooksBehind tail z := by
  rcases tail with _ | ⟨c, _ | ⟨d, tail⟩⟩
  · cases z with
    | nil => simp [Follows, LooksBehind, crlf]
    | cons d z =>
      by_cases hd : d = 10
      · simp [Follows, LooksBehind, head_crlf, hd]
      · simp [Follows, LooksBehind, head_crlf, hd]
  · by_cases hc : c = 13
    · simp [Follows, LooksBehind, hc]
    · simp [Follows, LooksBehind, hc]
  · simp [Follows, LooksBehind]

/-- A quoted value at whose end another line is looked at. -/
def Sensitive (line rest : Bytes) : Prop :=
  ∃ key value tail z, lineKind line = .quoted key value tail ∧ rest = 10 :: z ∧ LooksBehind tail z

theorem accepted_sensitive (h : Sensitive line (10 :: z)) :
    accepted (line ++ [13]) (10 :: crlf z) = none := by
  obtain ⟨key, value, tail, z', hkind, hz, htail⟩ := h
  obtain rfl := (List.cons.inj hz).2
  have hfollows : ¬Follows (tail ++ [13]) (10 :: crlf z) := fun h => ((follows_return _ _).mp h).2 htail
  simp [accepted, lineKind_return, hkind, LineKind.withReturn, hfollows]

theorem accepted_return (h : ¬Sensitive line (10 :: z)) :
    accepted (line ++ [13]) (10 :: crlf z) = accepted line (10 :: z) := by
  rw [accepted, accepted, lineKind_return]
  cases hkind : lineKind line with
  | quoted key value tail =>
    have htail : ¬LooksBehind tail z := fun htail => h ⟨key, value, tail, z, hkind, rfl, htail⟩
    simp [LineKind.withReturn, follows_return, htail]
  | _ => rfl

theorem entries_crlf_eq_none (text : Bytes) : entries (linesOf (crlf text)) = none ↔
    ∃ l ∈ linesOf text, accepted l.1 l.2 = none ∨ Sensitive l.1 l.2 := by
  induction text using line_induction with
  | last line hline =>
    have hlast : ¬Sensitive line [] := by
      rintro ⟨key, value, tail, z, -, hz, -⟩
      cases hz
    rw [crlf_line hline, linesOf_last hline, entries_eq_none]
    simp [hlast]
  | cons line z hline ih =>
    have hline' : 10 ∉ line ++ [13] := by simpa using hline
    rw [crlf_cons hline, linesOf_cons hline', linesOf_cons hline, entries_eq_none,
      List.exists_mem_cons_iff, List.exists_mem_cons_iff, ← ih, entries_eq_none]
    refine or_congr_left ?_
    by_cases hsensitive : Sensitive line (10 :: z)
    · simp [hsensitive, accepted_sensitive hsensitive]
    · simp [hsensitive, accepted_return hsensitive]

theorem entries_crlf (h : ∀ l ∈ linesOf text, ¬Sensitive l.1 l.2) :
    entries (linesOf (crlf text)) = entries (linesOf text) := by
  induction text using line_induction with
  | last line hline => rw [crlf_line hline]
  | cons line z hline ih =>
    have hline' : 10 ∉ line ++ [13] := by simpa using hline
    rw [linesOf_cons hline] at h ⊢
    rw [crlf_cons hline, linesOf_cons hline', entries_cons, entries_cons,
      accepted_return (h _ (.head _)), ih fun l hl => h l (.tail _ hl)]

/-- The file ends to be read with either ending, to the same lines or to a failure. -/
def ReadsSame (extended : Bool) (text : Bytes) : Prop :=
  ∃ result, configGetLines text extended = some result ∧
    configGetLines (crlf text) extended = some result

theorem ReadsSame.refused (hsame : ReadsSame extended text) (h : NoContinuation text)
    (hcrlf : entries (linesOf (crlf text)) = none) : entries (linesOf text) = none := by
  obtain ⟨result, hread, hread'⟩ := hsame
  rw [configGetLines, configGetLinesAux_eq h] at hread
  rw [configGetLines, configGetLinesAux_eq (crlf_noContinuation text), hcrlf] at hread'
  rw [← hread', Option.map_none, Option.some.injEq, Option.map_eq_none_iff] at hread
  exact hread

theorem readsSame_of_entries (h : NoContinuation text)
    (heq : entries (linesOf (crlf text)) = entries (linesOf text)) : ReadsSame extended text := by
  refine ⟨_, configGetLinesAux_eq h, ?_⟩
  rw [configGetLines, configGetLinesAux_eq (crlf_noContinuation text), heq]

/-- The endings make a difference by a quoted value that is looked behind, unless the file is
refused anyway. -/
theorem readsSame_iff (h : NoContinuation text) (extended : Bool) : ReadsSame extended text ↔
    (∃ l ∈ linesOf text, accepted l.1 l.2 = none) ∨ ∀ l ∈ linesOf text, ¬Sensitive l.1 l.2 := by
  constructor
  · intro hsame
    by_contra hcond
    push Not at hcond
    obtain ⟨haccepted, l, hl, hsensitive⟩ := hcond
    have hnone := hsame.refused h ((entries_crlf_eq_none text).mpr ⟨l, hl, .inr hsensitive⟩)
    obtain ⟨l', hl', hrefused⟩ := entries_eq_none.mp hnone
    exact haccepted l' hl' hrefused
  · rintro (⟨l, hl, hrefused⟩ | hno)
    · refine readsSame_of_entries h ?_
      rw [entries_eq_none.mpr ⟨l, hl, hrefused⟩, entries_crlf_eq_none]
      exact ⟨l, hl, .inl hrefused⟩
    · exact readsSame_of_entries h (entries_crlf hno)

theorem readsSame_iff_plain : ReadsSame true [97, 32, 98, 10, 99, 10] ↔
    (∃ l ∈ linesOf [97, 32, 98, 10, 99, 10], accepted l.1 l.2 = none) ∨
      ∀ l ∈ linesOf [97, 32, 98, 10, 99, 10], ¬Sensitive l.1 l.2 :=
  readsSame_iff (by simp [NoContinuation, List.infix_cons_iff]) true

/-- `a "b"` -/
theorem lineKind_quotedValue : lineKind [97, 32, 34, 98, 34] = .quoted [97] [98] [] := by
  have hread : unescapeString [34, 98, 34] = some (some ([98], 1, [])) :=
    unescapeString_steps (.cons (.char (by decide) (by decide) (by decide) (by decide)) (.nil _))
  have hval : lineVal [97, 32, 34, 98, 34] = [34, 98, 34] := by decide
  have hblank : isBlankLine [97, 32, 34, 98, 34] = false := by decide
  rw [lineKind, hblank, hval, hread]
  rfl

/-- `a "b"` with the line `c` behind it. -/
theorem readsSame_quotedValue : NoContinuation [97, 32, 34, 98, 34, 10, 99, 10] ∧
    ¬ReadsSame false [97, 32, 34, 98, 34, 10, 99, 10] := by
  have hcont : NoContinuation [97, 32, 34, 98, 34, 10, 99, 10] := by
    simp [NoContinuation, List.infix_cons_iff]
  refine ⟨hcont, fun hsame => ?_⟩
  have hlines : linesOf [97, 32, 34, 98, 34, 10, 99, 10] =
      [([97, 32, 34, 98, 34], [10, 99, 10]), ([99], [10]), ([], [])] := by
    simp [linesOf]
  have hsensitive : Sensitive [97, 32, 34, 98, 34] [10, 99, 10] :=
    ⟨_, _, _, _, lineKind_quotedValue, rfl, .inr ⟨rfl, 99, rfl, by decide⟩⟩
  have hnone := hsame.refused hcont ((entries_crlf_eq_none _).mpr
    ⟨_, by rw [hlines]; exact .head _, .inr hsensitive⟩)
  rw [hlines, entries_eq_none] at hnone
  have hc : lineKind [99] = .plain [99] [] := by
    rw [lineKind]
    rfl
  have hlast : lineKind [] = .blank := rfl
  simp [accepted, lineKind_quotedValue, hc, hlast, Follows] at hnone

end Endings

end TorDaemon.Encoding.Confline
