import TorDaemon.Encoding.CString
import TorDaemon.SharedRandom.DiskRoundTrip

/-! Lines of keys and values (`kvline.c`, and `qstring.c`). A NULL is an inner `none`, a failed
assertion an outer one. -/
namespace TorDaemon.Encoding.Kvline
open CString Library.FixedBuffer Library.NetworkOrder Library.Scanner
open SharedRandom (ConfigLine ascii isSpace)

structure Flags where
  quoted : Bool
  omitKeys : Bool
  omitVals : Bool
  quotedQstring : Bool
  raw : Bool
  deriving DecidableEq

section Encode

def needsEscape (s : Bytes) (asKeylessVal : Bool) : Bool :=
  if asKeylessVal && s = [] then true
  else if asKeylessVal && 61 ∈ s then true
  else s.any fun c => 127 ≤ c || isSpace c || !isPrint c || c = 39 || c = 34

/-- `line_has_no_key`. A key that is NULL is held as an empty one. -/
def lineHasNoKey (line : ConfigLine) : Bool := line.key = []

def lineHasNoVal (line : ConfigLine) : Bool := line.value = []

/-- A round of `kvline_can_encode_lines`. -/
def canEncodeLine (flags : Flags) (line : ConfigLine) : Bool :=
  let keyless := lineHasNoKey line
  if keyless && !flags.omitKeys then false
  else if needsEscape line.value keyless && !(flags.quoted || flags.raw) then false
  else if !keyless && needsEscape line.key true then false
  else true

def kvlineCanEncodeLines (lines : List ConfigLine) (flags : Flags) : Bool :=
  lines.all (canEncodeLine flags)

/-- A round of the loop of `kvline_encode`. -/
def encodeLine (flags : Flags) (line : ConfigLine) : Option Bytes :=
  let keyless := lineHasNoKey line
  let k := if keyless then [] else line.key
  let eq := if keyless then [] else [61]
  if flags.omitVals && lineHasNoVal line then some k
  else if !flags.raw && needsEscape line.value keyless then do
    let tmp ← escForLog (some line.value)
    return k ++ eq ++ tmp.takeWhile (· ≠ 0)
  else some (k ++ eq ++ line.value)

def kvlineEncode (lines : List ConfigLine) (flags : Flags) : Option (Option Bytes) :=
  if flags.quotedQstring then none
  else if flags.omitKeys && flags.omitVals then none
  else if flags.quoted && flags.raw then none
  else if kvlineCanEncodeLines lines flags then do
    let elements ← lines.mapM (encodeLine flags)
    return some (joined 32 elements)
  else some none

end Encode

section Qstring

/-- The loop of `get_qstring_length`: the number of characters and the pointer to the closing
quote. -/
def qstringLengthLoop (chars : ℕ) : Bytes → Option (ℕ × Bytes)
  | [] => none
  | [c] => if c = 34 then some (chars, [c]) else none
  | c :: c' :: cp =>
    if c = 92 then qstringLengthLoop (chars + 1) cp
    else if c = 34 then some (chars, c :: c' :: cp)
    else qstringLengthLoop (chars + 1) (c' :: cp)

/-- The loop of `decode_qstring` up to the closing quote. -/
def decodeQstringLoop (size : ℕ) (out : Bytes) : Bytes → Option Bytes
  | [] => some out
  | c :: cp =>
    if c = 92 then
      match cp with
      | [] => none
      | c' :: cp => (put size out c').bind fun out => decodeQstringLoop size out cp
    else (put size out c).bind fun out => decodeQstringLoop size out cp

/-- `decode_qstring` of a whole string. -/
def decodeQstring (start : Bytes) : Option (Option (Bytes × ℕ × Bytes)) :=
  match start with
  | [] => some none
  | c :: cp =>
    if c = 34 then
      match qstringLengthLoop 0 cp with
      | none => some none
      | some (nChars, quote) => do
        let len := start.length - quote.length + 1
        let out ← decodeQstringLoop (len + 1) [] (cp.take (cp.length - quote.length))
        let _ ← put (len + 1) out 0
        if out.length = nChars then return some (out, nChars, quote.drop 1) else none
    else some none

end Qstring

section Parse

def isSeparator (c : UInt8) : Bool := c ∈ ascii " \t\r" ++ [11] ++ ascii "\n"

/-- What the search for a key comes to: the value begins, the pair is complete, or the line is
not read. -/
inductive KeyEnd
  | value (key : Option Bytes) (cp : Bytes)
  | commit (key : Bytes) (cp : Bytes)
  | err
  deriving DecidableEq

def parseKey (flags : Flags) (cp : Bytes) : KeyEnd :=
  if cp.head? = some 34 then .value none cp
  else
    let key := cp.takeWhile fun c => !(isSeparator c || c = 61)
    let rest := cp.dropWhile fun c => !(isSeparator c || c = 61)
    if rest.head? = some 61 then .value (some key) (rest.drop 1)
    else if flags.omitVals then .commit key rest
    else if !flags.omitKeys then .err
    else .value none cp

def readQuoted (flags : Flags) (cp : Bytes) : Option (Option (Bytes × ℕ × Bytes)) :=
  if flags.quoted then unescapeString cp else decodeQstring cp

def parseValue (flags : Flags) (cp : Bytes) : Option (Option (Bytes × Bytes)) :=
  if cp.head? = some 34 then
    if !(flags.quoted || flags.quotedQstring) then some none
    else do
      match ← readQuoted flags cp with
      | none => return none
      | some (val, len, cp) => if len ≠ strlen val then return none else return some (val, cp)
  else some (some (cp.takeWhile fun c => !isSeparator c, cp.dropWhile fun c => !isSeparator c))

/-- A pair, up to `commit`. -/
def parsePair (flags : Flags) (cp : Bytes) :
    Option (Option (Option Bytes × Option Bytes × Bytes)) :=
  match parseKey flags cp with
  | .err => some none
  | .commit key cp => some (some (some key, none, cp))
  | .value key cp => do
    match ← parseValue flags cp with
    | none => return none
    | some (val, cp) => return some (key, some val, cp)

/-- The loop of `kvline_parse`. `cplast` is the length of what was left a round ago, of which
something has to be gone. -/
def parseLoop (flags : Flags) (cplast : ℕ) (cp : Bytes) (result : List ConfigLine) :
    Option (Option (List ConfigLine)) :=
  if cp = [] then some (some result)
  else
    let cp := cp.dropWhile isSeparator
    if _h : cp.length < cplast then
      if cp = [] then some (some result)
      else do
        match ← parsePair flags cp with
        | none => return none
        | some (key, val, rest) =>
          if key = some [] then return none
          else parseLoop flags cp.length rest (result ++ [⟨key.getD [], val.getD []⟩])
    else some none
termination_by cplast

/-- `kvline_parse`. The list without entries is a NULL as well. -/
def kvlineParse (line : Bytes) (flags : Flags) : Option (Option (List ConfigLine)) :=
  if flags.omitKeys && flags.omitVals then none
  else if flags.raw then none
  else do
    match ← parseLoop flags (line.length + 1) line [] with
    | none => return none
    | some result =>
      if !flags.quotedQstring && !kvlineCanEncodeLines result flags then return none
      else return some result

end Parse

section RoundTrip
variable {flags : Flags} {s rest value : Bytes} {keyless : Bool} {line : ConfigLine}

theorem plain_of_needsEscape (h : needsEscape s keyless = false) :
    (∀ c ∈ s, isSeparator c = false ∧ c ≠ 34) ∧ (keyless = true → s ≠ [] ∧ 61 ∉ s) := by
  have hall : ∀ c : UInt8, (127 ≤ c || isSpace c || !isPrint c || c = 39 || c = 34) = false →
      isSeparator c = false ∧ c ≠ 34 := by decide +kernel
  unfold needsEscape at h
  split_ifs at h with hempty heq
  have hplain := List.any_eq_false.mp h
  refine ⟨fun c hc => hall c (by simpa using hplain c hc), ?_⟩
  rintro rfl
  simpa using And.intro hempty heq

/-- What the pair is written as. -/
def valueText (value : Bytes) (keyless : Bool) : Bytes :=
  if needsEscape value keyless then escaped value else value

def element (flags : Flags) (line : ConfigLine) : Bytes :=
  if flags.omitVals && lineHasNoVal line then line.key
  else if lineHasNoKey line then valueText line.value true
  else line.key ++ 61 :: valueText line.value false

theorem encodeLine_eq (hraw : flags.raw = false) :
    encodeLine flags line = some (element flags line) := by
  have htext : (escaped line.value ++ [0]).takeWhile (· ≠ 0) = escaped line.value := by
    refine takeWhile_until (fun c hc => ?_) (by simp)
    have hne : c ≠ 0 := fun hzero => zero_not_mem_escaped line.value (hzero ▸ hc)
    simpa using hne
  unfold encodeLine element valueText
  simp only [hraw, Bool.not_false, Bool.true_and, escForLog_eq, htext, Option.bind_eq_bind,
    Option.bind_some]
  cases hkey : lineHasNoKey line with
  | true =>
    have hnil : line.key = [] := by simpa [lineHasNoKey] using hkey
    simp only [hnil]
    split_ifs <;> rfl
  | false => split_ifs <;> simp_all

theorem strlen_eq (h : 0 ∉ s) : strlen s = s.length := by
  have hall : ∀ c ∈ s, (decide (c ≠ 0)) = true := by
    intro c hc
    have hne : c ≠ 0 := fun hzero => h (hzero ▸ hc)
    simpa using hne
  rw [strlen, List.takeWhile_eq_self_iff.mpr hall]

theorem separator_ne (c : UInt8) (h : isSeparator c = true) : c ≠ 34 ∧ c ≠ 61 := by
  revert c
  decide +kernel

/-- The value is read up to what separates it from the next pair. -/
theorem parseValue_text (hquoted : needsEscape value keyless = true → flags.quoted = true)
    (hvalue : 0 ∉ value) (hrest : ∀ c ∈ rest.head?, isSeparator c = true) :
    parseValue flags (valueText value keyless ++ rest) = some (some (value, rest)) := by
  unfold valueText
  cases hescape : needsEscape value keyless with
  | true =>
    obtain ⟨text, htext, -, hunescape⟩ := (escape_inverse value rest).escaped
    rw [escForLog_eq, Option.some.injEq, List.append_cancel_right_eq] at htext
    have hhead : (escaped value ++ rest).head? = some 34 := rfl
    rw [if_pos rfl, htext, parseValue]
    rw [htext] at hhead
    simp [readQuoted, hhead, hquoted hescape, hunescape, strlen_eq hvalue]
  | false =>
    obtain ⟨hplain, -⟩ := plain_of_needsEscape hescape
    have hhead : (value ++ rest).head? ≠ some 34 := by
      intro h
      cases value with
      | nil => exact (separator_ne 34 (hrest 34 h)).1 rfl
      | cons c value => exact (hplain c (List.mem_cons_self ..)).2 (Option.some.inj h)
    obtain ⟨htake, hdrop⟩ := @span_append _ (fun c => !isSeparator c) value rest
      (fun c hc => by simp [(hplain c hc).1]) (fun c hc => by simp [hrest c hc])
    rw [if_neg Bool.false_ne_true, parseValue, if_neg hhead, htake, hdrop]

theorem head_ne (hs : ∀ c ∈ s, isSeparator c = false ∧ c ≠ 34) (hne : s ≠ []) (t : Bytes) :
    (s ++ t).head? ≠ some 34 := by
  intro h
  cases s with
  | nil => exact hne rfl
  | cons c s => exact (hs c (List.mem_cons_self ..)).2 (Option.some.inj h)

/-- A text without separators and '=' is gone over in the search for a key. -/
theorem span_key (hs : ∀ c ∈ s, isSeparator c = false ∧ c ≠ 34) (heq : 61 ∉ s)
    (hrest : ∀ c ∈ rest.head?, isSeparator c = true ∨ c = 61) :
    (s ++ rest).takeWhile (fun c => !(isSeparator c || c = 61)) = s ∧
      (s ++ rest).dropWhile (fun c => !(isSeparator c || c = 61)) = rest := by
  apply span_append
  · intro c hc
    have hne : c ≠ 61 := fun h => heq (h ▸ hc)
    simp [(hs c hc).1, hne]
  · intro c hc
    rcases hrest c hc with hsep | rfl
    · simp [hsep]
    · simp

theorem canEncodeLine_parts (h : canEncodeLine flags line = true) (hraw : flags.raw = false) :
    (lineHasNoKey line = true → flags.omitKeys = true) ∧
      (needsEscape line.value (lineHasNoKey line) = true → flags.quoted = true) ∧
        (lineHasNoKey line = false → needsEscape line.key true = false) := by
  unfold canEncodeLine at h
  simp only [hraw, Bool.or_false] at h
  split_ifs at h with hkeyless hquoted hkey
  refine ⟨fun hno => ?_, fun hescape => ?_, fun hno => ?_⟩
  · simpa [hno] using hkeyless
  · simpa [hescape] using hquoted
  · simpa [hno] using hkey

theorem parsePair_element (hcan : canEncodeLine flags line = true) (hraw : flags.raw = false)
    (homit : (flags.omitKeys && flags.omitVals) = false) (hvalue : 0 ∉ line.value)
    (hrest : ∀ c ∈ rest.head?, isSeparator c = true) :
    ∃ key val, parsePair flags (element flags line ++ rest) = some (some (key, val, rest)) ∧
      key ≠ some [] ∧ key.getD [] = line.key ∧ val.getD [] = line.value := by
  obtain ⟨hkeyless, hquoted, hkey⟩ := canEncodeLine_parts hcan hraw
  have hafter : ∀ c ∈ rest.head?, isSeparator c = true ∨ c = 61 := fun c hc => .inl (hrest c hc)
  have hnoeq : rest.head? ≠ some 61 := fun h => (separator_ne 61 (hrest 61 h)).2 rfl
  unfold element
  cases hno : lineHasNoKey line with
  | true =>
    have hnokey : line.key = [] := by simpa [lineHasNoKey] using hno
    have hkeys := hkeyless hno
    have hvals : flags.omitVals = false := by simpa [hkeys] using homit
    rw [hno] at hquoted
    have hread := parseValue_text hquoted hvalue hrest
    simp only [hvals, Bool.false_and, Bool.false_eq_true, if_false, if_true]
    refine ⟨none, some line.value, ?_, by simp, hnokey.symm, rfl⟩
    have hkeyend : parseKey flags (valueText line.value true ++ rest) =
        .value none (valueText line.value true ++ rest) := by
      unfold valueText
      cases hescape : needsEscape line.value true with
      | true => rfl
      | false =>
        obtain ⟨hplain, hnonempty⟩ := plain_of_needsEscape hescape
        obtain ⟨hne, heq⟩ := hnonempty rfl
        obtain ⟨htake, hdrop⟩ := span_key hplain heq hafter
        rw [if_neg Bool.false_ne_true, parseKey, if_neg (head_ne hplain hne rest)]
        simp only [hdrop, if_neg hnoeq, hvals, hkeys]
        rfl
    rw [parsePair, hkeyend]
    simp [hread]
  | false =>
    obtain ⟨hplain, hnonempty⟩ := plain_of_needsEscape (hkey hno)
    obtain ⟨hne, heq⟩ := hnonempty rfl
    have hsome : some line.key ≠ some [] := by simpa using hne
    have hhead := head_ne hplain hne
    by_cases hval : (flags.omitVals && lineHasNoVal line) = true
    · rw [if_pos hval]
      obtain ⟨hvals, hnoval⟩ := Bool.and_eq_true_iff.mp hval
      obtain ⟨htake, hdrop⟩ := span_key hplain heq hafter
      refine ⟨some line.key, none, ?_, hsome, rfl, ?_⟩
      · rw [parsePair, parseKey, if_neg (hhead rest)]
        simp only [htake, hdrop, if_neg hnoeq, hvals, if_true]
      · simpa [lineHasNoVal] using hnoval.symm
    · rw [if_neg hval, if_neg Bool.false_ne_true, List.append_assoc, List.cons_append]
      have hsign : ∀ c ∈ (61 :: (valueText line.value false ++ rest)).head?,
          isSeparator c = true ∨ c = 61 := fun c hc => .inr (Option.some.inj hc).symm
      obtain ⟨htake, hdrop⟩ := span_key hplain heq hsign
      refine ⟨some line.key, some line.value, ?_, hsome, rfl, rfl⟩
      rw [parsePair, parseKey, if_neg (hhead _)]
      rw [hno] at hquoted
      simp only [htake, hdrop, List.head?_cons, if_true, List.drop_succ_cons, List.drop_zero]
      simp [parseValue_text hquoted hvalue hrest]

/-- The text of a pair is not empty, and does not begin with a separator. -/
theorem element_head (hcan : canEncodeLine flags line = true) (hraw : flags.raw = false)
    (homit : (flags.omitKeys && flags.omitVals) = false) :
    ∃ c text, element flags line = c :: text ∧ isSeparator c = false := by
  obtain ⟨hkeyless, -, hkey⟩ := canEncodeLine_parts hcan hraw
  have hfirst {s : Bytes} (hs : ∀ c ∈ s, isSeparator c = false ∧ c ≠ 34) (hne : s ≠ []) :
      ∃ c text, s = c :: text ∧ isSeparator c = false := by
    obtain ⟨c, text, rfl⟩ := List.exists_cons_of_ne_nil hne
    exact ⟨c, text, rfl, (hs c (List.mem_cons_self ..)).1⟩
  unfold element
  cases hno : lineHasNoKey line with
  | true =>
    have hvals : flags.omitVals = false := by simpa [hkeyless hno] using homit
    rw [hvals, Bool.false_and, if_neg Bool.false_ne_true, if_pos rfl, valueText]
    cases hescape : needsEscape line.value true with
    | true => exact ⟨34, _, rfl, by decide⟩
    | false =>
      obtain ⟨hplain, hnonempty⟩ := plain_of_needsEscape hescape
      exact hfirst hplain (hnonempty rfl).1
  | false =>
    obtain ⟨hplain, hnonempty⟩ := plain_of_needsEscape (hkey hno)
    obtain ⟨c, text, hc, hsep⟩ := hfirst hplain (hnonempty rfl).1
    rw [hc]
    split
    · exact ⟨c, text, rfl, hsep⟩
    · exact ⟨c, _, rfl, hsep⟩

section
variable (hraw : flags.raw = false)
include hraw

theorem parseLoop_joined
    (homit : (flags.omitKeys && flags.omitVals) = false) {lines result : List ConfigLine}
    (hcan : ∀ line ∈ lines, canEncodeLine flags line = true) (hvalue : ∀ line ∈ lines, 0 ∉ line.value)
    {cp : Bytes} {cplast : ℕ} (hcp : cp.dropWhile isSeparator = joined 32 (lines.map (element flags)))
    (hlast : (cp.dropWhile isSeparator).length < cplast) :
    parseLoop flags cplast cp result = some (some (result ++ lines)) := by
  induction lines generalizing cp cplast result with
  | nil =>
    rw [parseLoop, dif_pos hlast, hcp]
    simp [joined]
  | cons line lines ih =>
    obtain ⟨hcan_line, hcan_lines⟩ := List.forall_mem_cons.mp hcan
    obtain ⟨hvalue_line, hvalue_lines⟩ := List.forall_mem_cons.mp hvalue
    obtain ⟨c, text, hc, hsep⟩ := element_head hcan_line hraw homit
    -- behind the pair there is nothing, or a space and the other pairs
    obtain ⟨rest, hjoined, hrest, hdrop⟩ : ∃ rest, joined 32 ((line :: lines).map (element flags)) =
        element flags line ++ rest ∧ (∀ c ∈ rest.head?, isSeparator c = true) ∧
          rest.dropWhile isSeparator = joined 32 (lines.map (element flags)) := by
      cases lines with
      | nil => exact ⟨[], by simp [joined], by simp, rfl⟩
      | cons line' lines =>
        obtain ⟨c', text', hc', hsep'⟩ :=
          element_head (hcan_lines line' (List.mem_cons_self ..)) hraw homit
        refine ⟨32 :: joined 32 ((line' :: lines).map (element flags)),
          joined_cons (by simp), ?_, ?_⟩
        · rintro _ ⟨⟩
          rfl
        · have hhead : ∃ t, joined 32 ((line' :: lines).map (element flags)) = c' :: t := by
            cases lines with
            | nil => exact ⟨text', by simp [joined, hc']⟩
            | cons line'' lines =>
              rw [List.map_cons, joined_cons (by simp), hc']
              exact ⟨_, rfl⟩
          obtain ⟨t, ht⟩ := hhead
          rw [ht, List.dropWhile_cons_of_pos (by rfl), List.dropWhile_cons_of_neg (by simp [hsep'])]
    obtain ⟨key, val, hpair, hkey, hkey', hval⟩ :=
      parsePair_element hcan_line hraw homit hvalue_line hrest
    have hne : cp ≠ [] := by
      rintro rfl
      rw [hjoined, hc] at hcp
      cases hcp
    have hlength : (rest.dropWhile isSeparator).length < (element flags line ++ rest).length := by
      have hle := dropWhile_length_le isSeparator rest
      rw [hc, List.cons_append, List.length_cons, List.length_append]
      omega
    rw [parseLoop, if_neg hne, dif_pos hlast, hcp, hjoined, if_neg (by simp [hc])]
    simp only [hpair, Option.bind_eq_bind, Option.bind_some, if_neg hkey, hkey', hval]
    rw [ih hcan_lines hvalue_lines hdrop hlength]
    simp

theorem mapM_encodeLine (lines : List ConfigLine) :
    lines.mapM (encodeLine flags) = some (lines.map (element flags)) := by
  have hencode : encodeLine flags = fun line => pure (element flags line) := by
    funext line
    exact encodeLine_eq hraw
  rw [hencode]
  exact List.mapM_pure

theorem kvlineEncode_some {lines : List ConfigLine} {text : Bytes}
    (h : kvlineEncode lines flags = some (some text)) :
    (flags.omitKeys && flags.omitVals) = false ∧ kvlineCanEncodeLines lines flags = true ∧
      text = joined 32 (lines.map (element flags)) := by
  have hmap := mapM_encodeLine hraw lines
  unfold kvlineEncode at h
  split_ifs at h with hqstring homit hquoted hcan
  · rw [hmap] at h
    exact ⟨by simpa using homit, hcan, by simpa using h.symm⟩
  · simp at h

/-- What was written is read again. -/
theorem kvlineParse_encode {lines : List ConfigLine} {text : Bytes}
    (hvalue : ∀ line ∈ lines, 0 ∉ line.value) (h : kvlineEncode lines flags = some (some text)) :
    kvlineParse text flags = some (some lines) := by
  obtain ⟨homit, hcan, rfl⟩ := kvlineEncode_some hraw h
  have hlines := List.all_eq_true.mp hcan
  have hhead : (joined 32 (lines.map (element flags))).dropWhile isSeparator =
      joined 32 (lines.map (element flags)) := by
    cases lines with
    | nil => rfl
    | cons line lines =>
      obtain ⟨c, t, hc, hsep⟩ := element_head (hlines line (List.mem_cons_self ..)) hraw homit
      have hjoined : ∃ t, joined 32 ((line :: lines).map (element flags)) = c :: t := by
        cases lines with
        | nil => exact ⟨t, by simp [joined, hc]⟩
        | cons line' lines =>
          rw [List.map_cons, joined_cons (by simp), hc]
          exact ⟨_, rfl⟩
      obtain ⟨t', ht'⟩ := hjoined
      rw [ht', List.dropWhile_cons_of_neg (by simp [hsep])]
  have hlast : ((joined 32 (lines.map (element flags))).dropWhile isSeparator).length <
      (joined 32 (lines.map (element flags))).length + 1 := by
    rw [hhead]
    exact Nat.lt_succ_self _
  have hloop : parseLoop flags _ _ [] = _ := parseLoop_joined hraw homit hlines hvalue hhead hlast
  rw [kvlineParse, homit, hraw, hloop]
  simp [hcan]

end

theorem not_mem_of_strlen (h : s.length = strlen s) : 0 ∉ s := by
  have htake : s.takeWhile (· ≠ 0) = s := (List.takeWhile_prefix _).eq_of_length h.symm
  intro hmem
  simpa using List.takeWhile_eq_self_iff.mp htake 0 hmem

theorem parsePair_not_mem {cp : Bytes} {key val : Option Bytes}
    (hqstring : flags.quotedQstring = false) (hcp : 0 ∉ cp)
    (h : parsePair flags cp = some (some (key, val, rest))) : 0 ∉ val.getD [] ∧ 0 ∉ rest := by
  have hkey : ∀ key cp', parseKey flags cp = .value key cp' ∨
      (∃ key, parseKey flags cp = .commit key cp') → 0 ∉ cp' := by
    intro key cp' hend
    have hdrop : 0 ∉ cp.dropWhile fun c => !(isSeparator c || c = 61) :=
      fun hmem => hcp ((List.dropWhile_sublist _).mem hmem)
    have htail : 0 ∉ (cp.dropWhile fun c => !(isSeparator c || c = 61)).drop 1 :=
      fun hmem => hdrop (List.mem_of_mem_drop hmem)
    unfold parseKey at hend
    dsimp only at hend
    rcases hend with hend | ⟨key', hend⟩ <;> split_ifs at hend <;> cases hend
    · exact hcp
    · exact htail
    · exact hcp
    · exact hdrop
  have hvalue : ∀ cp' val, 0 ∉ cp' → parseValue flags cp' = some (some (val, rest)) →
      0 ∉ val ∧ 0 ∉ rest := by
    intro cp' val hcp' hread
    unfold parseValue at hread
    split_ifs at hread with hquote hnone
    · simp at hread
    · have hquoted : flags.quoted = true := by simpa [hqstring] using hnone
      rw [readQuoted, if_pos hquoted] at hread
      obtain ⟨read, hunescape, hresult⟩ := Option.bind_eq_some_iff.mp hread
      cases read with
      | none => simp at hresult
      | some out =>
        obtain ⟨hlen, hsuffix⟩ := unescapeString_suffix hunescape
        simp only [Option.pure_def] at hresult
        split_ifs at hresult with hstrlen
        · simp at hresult
        · cases hresult
          exact ⟨not_mem_of_strlen (by rw [← hlen]; exact not_not.mp hstrlen),
            fun hmem => hcp' (hsuffix.mem hmem)⟩
    · simp only [Option.some.injEq, Prod.mk.injEq] at hread
      obtain ⟨rfl, rfl⟩ := hread
      exact ⟨fun hmem => hcp' ((List.takeWhile_sublist _).mem hmem),
        fun hmem => hcp' ((List.dropWhile_sublist _).mem hmem)⟩
  unfold parsePair at h
  cases hend : parseKey flags cp with
  | err => simp [hend] at h
  | commit key' cp' =>
    simp only [hend, Option.some.injEq, Prod.mk.injEq] at h
    obtain ⟨-, rfl, rfl⟩ := h
    exact ⟨by simp, hkey key cp' (.inr ⟨key', hend⟩)⟩
  | value key' cp' =>
    simp only [hend, Option.bind_eq_bind] at h
    obtain ⟨read, hread, hresult⟩ := Option.bind_eq_some_iff.mp h
    cases read with
    | none => simp at hresult
    | some pair =>
      obtain ⟨val', rest'⟩ := pair
      simp only [Option.some.injEq, Prod.mk.injEq, Option.pure_def] at hresult
      obtain ⟨-, rfl, rfl⟩ := hresult
      exact hvalue cp' val' (hkey key' cp' (.inl hend)) hread

theorem parseLoop_not_mem (hqstring : flags.quotedQstring = false) {cplast : ℕ} {cp : Bytes}
    {result lines : List ConfigLine} (hcp : 0 ∉ cp) (hresult : ∀ line ∈ result, 0 ∉ line.value)
    (h : parseLoop flags cplast cp result = some (some lines)) : ∀ line ∈ lines, 0 ∉ line.value := by
  induction cplast using Nat.strong_induction_on generalizing cp result with
  | _ cplast ih =>
    have hdrop : 0 ∉ cp.dropWhile isSeparator :=
      fun hmem => hcp ((List.dropWhile_sublist _).mem hmem)
    rw [parseLoop] at h
    dsimp only at h
    split_ifs at h with hnil hlast hend
    · cases h
      exact hresult
    · cases h
      exact hresult
    · obtain ⟨pair, hpair, hloop⟩ := Option.bind_eq_some_iff.mp h
      cases pair with
      | none => simp at hloop
      | some read =>
        obtain ⟨hval, hrest⟩ := parsePair_not_mem hqstring hdrop hpair
        dsimp only at hloop
        split_ifs at hloop with hempty
        · simp at hloop
        · refine ih _ hlast hrest ?_ hloop
          intro line hline
          rcases List.mem_append.mp hline with hline | hline
          · exact hresult line hline
          · rw [List.mem_singleton.mp hline]
            exact hval
    · simp at h

/-- Both directions of the codec for one list and one text. -/
structure Codec (flags : Flags) (lines : List ConfigLine) (line : Bytes) : Prop where
  encoded : ∀ text, kvlineEncode lines flags = some (some text) →
    kvlineParse text flags = some (some lines)
  parsed : ∀ lines, kvlineParse line flags = some (some lines) →
    ∃ text, kvlineEncode lines flags = some (some text) ∧
      kvlineParse text flags = some (some lines)

/-- The strings are C strings, which have no NUL before their end. -/
theorem kvline_codec (quoted omitKeys omitVals : Bool)
    (lines : { lines : List ConfigLine // ∀ line ∈ lines, 0 ∉ line.key ∧ 0 ∉ line.value })
    (line : { line : Bytes // 0 ∉ line }) :
    Codec ⟨quoted, omitKeys, omitVals, false, false⟩ lines.val line.val := by
  constructor
  · intro text h
    exact kvlineParse_encode rfl (fun l hl => (lines.property l hl).2) h
  · intro lines h
    unfold kvlineParse at h
    split_ifs at h with homit hraw
    obtain ⟨result, hloop, hresult⟩ := Option.bind_eq_some_iff.mp h
    cases result with
    | none => simp at hresult
    | some result =>
      dsimp only at hresult
      split_ifs at hresult with hcannot
      · simp at hresult
      cases hresult
      have hcan : kvlineCanEncodeLines lines ⟨quoted, omitKeys, omitVals, false, false⟩ = true := by
        simpa using hcannot
      have hvalue := parseLoop_not_mem rfl line.property (by simp) hloop
      have hmap : lines.mapM (encodeLine ⟨quoted, omitKeys, omitVals, false, false⟩) =
          some (lines.map (element ⟨quoted, omitKeys, omitVals, false, false⟩)) :=
        mapM_encodeLine rfl lines
      have hencode : kvlineEncode lines ⟨quoted, omitKeys, omitVals, false, false⟩ = some (some
          (joined 32 (lines.map (element ⟨quoted, omitKeys, omitVals, false, false⟩)))) := by
        simp [kvlineEncode, homit, hcan, hmap]
      exact ⟨_, hencode, kvlineParse_encode rfl hvalue hencode⟩

example : (kvlineParse (ascii "a=b c=\"d e\\n\"  z=") ⟨true, false, false, false, false⟩).map
    (·.map fun lines => lines.map fun line => (line.key, line.value)) =
      some (some [(ascii "a", ascii "b"), (ascii "c", ascii "d e\n"), (ascii "z", [])]) := by
  decide +kernel

end RoundTrip

end TorDaemon.Encoding.Kvline
