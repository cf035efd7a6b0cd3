import TorDaemon.Dirparse.Tokens

/-! The tokens of a whole document, and what a table says of their numbers and their order
(`tokenize_string`). A loop that would not end, or an index that is out of range, is `none`. -/
namespace TorDaemon.Dirparse
open Library.NetworkOrder
open SharedRandom (ascii)
open Encoding.Pem (eatWhitespaceEos eatWhitespaceEos_suffix)
variable {Key : Type}

section Tokenize

def tsAnnotationsOk : ℕ := 1
def tsNocheck : ℕ := 2
def tsNoNewAnnotations : ℕ := 4

/-- `flags & bit` -/
def hasFlag (flags bit : ℕ) : Bool := flags &&& bit ≠ 0

/-- The loop of `tokenize_string`: whether there was no error, and the list then. -/
def tokenizeLoop (crypto : PkCrypto Key) (table : List TokenRule) (s : Bytes)
    (out : List (Token Key)) : Option (Bool × List (Token Key)) :=
  if s = [] then some (true, out)
  else do
    match ← getNextToken crypto table s with
    | .error _ => return (false, out)
    | .ok (tok, rest) =>
      let rest := eatWhitespaceEos false rest
      if tok.tp = .eof then return (true, out ++ [tok])
      else if _h : rest.length < s.length then tokenizeLoop crypto table rest (out ++ [tok])
      else none
termination_by s.length

/-- `counts`, which go along with the list. -/
def counts (out : List (Token Key)) (v : DirectoryKeyword) : ℕ := out.countP (·.tp = v)

/-- The checks of annotations: the index of the first token that is none, or -1. -/
def checkAnnotations (flags prevLen : ℕ) (out : List (Token Key)) : Option ℕ :=
  if hasFlag flags tsAnnotationsOk then
    match out.findIdx? fun tok => !isAnnotationKeyword tok.tp with
    | none => none
    | some firstNonannotationIdx =>
      if (out.drop firstNonannotationIdx).any fun tok => isAnnotationKeyword tok.tp then none
      else if hasFlag flags tsNoNewAnnotations ∧ firstNonannotationIdx ≠ prevLen then none
      else some firstNonannotationIdx
  else if out.any fun tok => isAnnotationKeyword tok.tp then none
  else some 0

/-- `AT_START` or `AT_END`: whether the token at an index is of the rule, if that bit is set. -/
def checkPlace (out : List (Token Key)) (i bit : ℕ) (rule : TokenRule) : Option Bool :=
  if hasFlag rule.pos bit then
    if out.length < 1 then some false
    else out[i]?.map fun tok => tok.tp = rule.v
  else some true

/-- A round of the loop over the table. -/
def checkRule (out : List (Token Key)) (firstNonannotationIdx : ℕ) (rule : TokenRule) :
    Option Bool := do
  if counts out rule.v < rule.minCnt then return false
  else if counts out rule.v > rule.maxCnt then return false
  else if !(← checkPlace out firstNonannotationIdx atStart rule) then return false
  else checkPlace out (out.length - 1) atEnd rule

/-- `tokenize_string`, with the list then. Without an end the input is up to its NUL. -/
def tokenizeString (crypto : PkCrypto Key) (start : Bytes) (hasEnd : Bool)
    (out : List (Token Key)) (table : List TokenRule) (flags : ℕ) :
    Option (ℤ × List (Token Key)) := do
  if hasEnd ∧ 0 ∈ start then return (-1, out)
  else
    let s := if hasEnd then start else start.takeWhile (· ≠ 0)
    let prevLen := out.length
    let r ← tokenizeLoop crypto table s out
    let out := r.2
    if !r.1 then return (-1, out)
    else if hasFlag flags tsNocheck then return (0, out)
    else
      match checkAnnotations flags prevLen out with
      | none => return (-1, out)
      | some firstNonannotationIdx =>
        if ← table.allM (checkRule out firstNonannotationIdx) then return (0, out)
        else return (-1, out)

end Tokenize

section Enforced
variable {crypto : PkCrypto Key} {table : List TokenRule} {s rest : Bytes}
  {out new : List (Token Key)} {tok : Token Key} {flags prevLen : ℕ}

/-- The tokens of an input, each for an item of it. -/
inductive Tokens (crypto : PkCrypto Key) (table : List TokenRule) : Bytes → List (Token Key) → Prop
  | nil : Tokens crypto table [] []
  | eof {s rest : Bytes} {item : Item} {tok : Token Key} (hs : s ≠ [])
      (hread : readItem s = some (.ok (item, rest))) (htoken : TokenFor crypto table item tok)
      (htp : tok.tp = .eof) : Tokens crypto table s [tok]
  | cons {s rest : Bytes} {item : Item} {tok : Token Key} {toks : List (Token Key)} (hs : s ≠ [])
      (hread : readItem s = some (.ok (item, rest))) (htoken : TokenFor crypto table item tok)
      (htp : tok.tp ≠ .eof) (hrest : Tokens crypto table (eatWhitespaceEos false rest) toks) :
      Tokens crypto table s (tok :: toks)

theorem Tokens.next (h : Tokens crypto table s new) (hs : s ≠ []) : ∃ tok rest,
    getNextToken crypto table s = some (.ok (tok, rest)) ∧
      (tok.tp = .eof ∧ new = [tok] ∨ tok.tp ≠ .eof ∧ ∃ toks, new = tok :: toks ∧
        Tokens crypto table (eatWhitespaceEos false rest) toks) := by
  cases h with
  | nil => exact absurd rfl hs
  | eof _ hread htoken htp =>
    exact ⟨_, _, getNextToken_ok.mpr ⟨_, hread, htoken⟩, .inl ⟨htp, rfl⟩⟩
  | cons _ hread htoken htp hrest =>
    exact ⟨_, _, getNextToken_ok.mpr ⟨_, hread, htoken⟩, .inr ⟨htp, _, rfl, hrest⟩⟩

theorem TokenIn.mono {t : Bytes} (h : TokenIn t tok) (ht : t <:+: s) : TokenIn s tok where
  args a ha := (h.args a ha).trans ht
  objectType name hname := (h.objectType name hname).trans ht
  objectBody body hbody := by
    obtain ⟨text, htext, hdecoded⟩ := h.objectBody body hbody
    exact ⟨text, htext.trans ht, hdecoded⟩

theorem getNextToken_spec (h : getNextToken crypto table s = some (.ok (tok, rest))) :
    rest <:+ s ∧ rest.length < s.length ∧ TokenIn s tok := by
  obtain ⟨item, hread, htoken⟩ := getNextToken_ok.mp h
  obtain ⟨result, hresult, hok⟩ := readItem_spec s
  rw [hread] at hresult
  obtain ⟨hsuffix, hlt, hline, hobject⟩ := hok item rest (Option.some.inj hresult).symm
  exact ⟨hsuffix, hlt, htoken.tokenIn hline hobject⟩

theorem tokenizeLoop_spec (crypto : PkCrypto Key) (table : List TokenRule) (s : Bytes)
    (out : List (Token Key)) : ∃ ok new, tokenizeLoop crypto table s out = some (ok, out ++ new) ∧
      (∀ tok ∈ new, TokenIn s tok) ∧ (ok = true → Tokens crypto table s new) ∧
        ∀ toks, Tokens crypto table s toks → ok = true := by
  induction hn : s.length using Nat.strong_induction_on generalizing s out with
  | _ n ih =>
    rw [tokenizeLoop]
    by_cases hs : s = []
    · refine ⟨true, [], ?_, ?_, ?_, fun _ _ => rfl⟩
      · rw [if_pos hs, List.append_nil]
      · exact fun tok htok => absurd htok List.not_mem_nil
      · rw [hs]
        exact fun _ => .nil
    rw [if_neg hs]
    obtain ⟨result, hresult⟩ := getNextToken_inBounds crypto table s
    rw [hresult, Option.bind_eq_bind, Option.bind_some]
    cases result with
    | error e =>
      refine ⟨false, [], ?_, fun tok htok => absurd htok List.not_mem_nil, ?_, ?_⟩
      · rw [List.append_nil]
        rfl
      · intro h
        cases h
      · intro toks htoks
        obtain ⟨tok, rest, hnext, -⟩ := htoks.next hs
        rw [hresult] at hnext
        cases hnext
    | ok r =>
      obtain ⟨tok, rest⟩ := r
      obtain ⟨item, hread, htoken⟩ := getNextToken_ok.mp hresult
      obtain ⟨hsuffix, hlt, hin⟩ := getNextToken_spec hresult
      have heat := eatWhitespaceEos_suffix false rest
      have hlt' : (eatWhitespaceEos false rest).length < s.length := heat.length_le.trans_lt hlt
      dsimp only
      by_cases heof : tok.tp = .eof
      · refine ⟨true, [tok], ?_, ?_, fun _ => .eof hs hread htoken heof, fun _ _ => rfl⟩
        · rw [if_pos heof]
          rfl
        · intro tok' htok'
          rwa [List.mem_singleton.mp htok']
      · obtain ⟨ok, new, hloop, hinside, htokens, hcomplete⟩ :=
          ih _ (hn ▸ hlt') (eatWhitespaceEos false rest) (out ++ [tok]) rfl
        refine ⟨ok, tok :: new, ?_, ?_, ?_, ?_⟩
        · rw [if_neg heof, dif_pos hlt', hloop, List.append_assoc, List.singleton_append]
        · intro tok' htok'
          rcases List.mem_cons.mp htok' with rfl | htok'
          · exact hin
          · exact (hinside tok' htok').mono (heat.trans hsuffix).isInfix
        · exact fun h => .cons hs hread htoken heof (htokens h)
        · intro toks htoks
          obtain ⟨tok', rest', hnext, hcases⟩ := htoks.next hs
          rw [hresult] at hnext
          cases hnext
          rcases hcases with ⟨heof', -⟩ | ⟨-, toks', -, hrest⟩
          · exact absurd heof' heof
          · exact hcomplete toks' hrest

/-- What the flags say of annotations. -/
def AnnotationsObey (flags prevLen : ℕ) (out : List (Token Key)) : Prop :=
  if hasFlag flags tsAnnotationsOk then
    ∃ annotations others, out = annotations ++ others ∧ others ≠ [] ∧
      (∀ tok ∈ annotations, isAnnotationKeyword tok.tp = true) ∧
        (∀ tok ∈ others, isAnnotationKeyword tok.tp = false) ∧
          (hasFlag flags tsNoNewAnnotations = true → annotations.length = prevLen)
  else ∀ tok ∈ out, isAnnotationKeyword tok.tp = false

/-- What a rule says of the number of its tokens and of their places. -/
structure RuleObeyed (out : List (Token Key)) (rule : TokenRule) : Prop where
  minCnt : rule.minCnt ≤ counts out rule.v
  maxCnt : counts out rule.v ≤ rule.maxCnt
  atStart : hasFlag rule.pos atStart = true →
    (out.find? fun tok => !isAnnotationKeyword tok.tp).map (·.tp) = some rule.v
  atEnd : hasFlag rule.pos atEnd = true → out.getLast?.map (·.tp) = some rule.v

theorem checkAnnotations_some {first : ℕ} (h : checkAnnotations flags prevLen out = some first) :
    AnnotationsObey flags prevLen out ∧
      out[first]? = out.find? (fun tok => !isAnnotationKeyword tok.tp) ∧
        (out ≠ [] → first < out.length) := by
  unfold checkAnnotations at h
  unfold AnnotationsObey
  split_ifs at h ⊢ with hok hany
  · cases hidx : out.findIdx? fun tok => !isAnnotationKeyword tok.tp with
    | none => simp [hidx] at h
    | some i =>
      simp only [hidx] at h
      split_ifs at h with hmixed hnew
      obtain rfl := Option.some.inj h
      obtain ⟨hlt, hother, hbefore⟩ := List.findIdx?_eq_some_iff_getElem.mp hidx
      refine ⟨⟨out.take i, out.drop i, (List.take_append_drop i out).symm, ?_, ?_, ?_, ?_⟩, ?_,
        fun _ => hlt⟩
      · exact List.ne_nil_of_length_pos (by rw [List.length_drop]; omega)
      · intro tok htok
        obtain ⟨j, hj, rfl⟩ := List.mem_iff_getElem.mp htok
        rw [List.length_take] at hj
        simpa using hbefore j (by omega)
      · simpa using hmixed
      · intro hflag
        rw [List.length_take, Nat.min_eq_left hlt.le]
        by_contra hne
        exact hnew ⟨hflag, hne⟩
      · rw [List.getElem?_eq_getElem hlt, eq_comm, List.find?_eq_some_iff_getElem]
        refine ⟨hother, i, hlt, rfl, fun j hj => ?_⟩
        simpa using hbefore j hj
  · cases h
    have hnone : ∀ tok ∈ out, isAnnotationKeyword tok.tp = false := by simpa using hany
    refine ⟨hnone, ?_, fun hne => List.length_pos_iff.mpr hne⟩
    cases out with
    | nil => rfl
    | cons tok out => simp [hnone tok (.head _)]

theorem checkAnnotations_obey (h : AnnotationsObey flags prevLen out) :
    ∃ first, checkAnnotations flags prevLen out = some first := by
  unfold AnnotationsObey at h
  unfold checkAnnotations
  split_ifs at h ⊢ with hok hany
  · obtain ⟨annotations, others, rfl, hne, hannotations, hothers, hnew⟩ := h
    have hidx : (annotations ++ others).findIdx? (fun tok => !isAnnotationKeyword tok.tp) =
        some annotations.length := by
      have hnone : annotations.findIdx? (fun tok => !isAnnotationKeyword tok.tp) = none := by
        simpa [List.findIdx?_eq_none_iff] using hannotations
      obtain ⟨tok, others, rfl⟩ := List.exists_cons_of_ne_nil hne
      rw [List.findIdx?_append, hnone, List.findIdx?_cons]
      simp [hothers tok (.head _)]
    have hmixed : ¬((annotations ++ others).drop annotations.length).any
        (fun tok => isAnnotationKeyword tok.tp) = true := by
      simpa using hothers
    simp only [hidx]
    rw [if_neg hmixed, if_neg fun hflag => hflag.2 (hnew hflag.1)]
    exact ⟨_, rfl⟩
  · obtain ⟨tok, htok, htp⟩ := List.any_eq_true.mp hany
    rw [h tok htok] at htp
    cases htp
  · exact ⟨0, rfl⟩

theorem checkPlace_spec {i : ℕ} {place : Option (Token Key)} (hplace : out[i]? = place)
    (hlt : out ≠ [] → i < out.length) (bit : ℕ) (rule : TokenRule) :
    ∃ b, checkPlace out i bit rule = some b ∧
      (b = true ↔ (hasFlag rule.pos bit = true → place.map (·.tp) = some rule.v)) := by
  subst hplace
  unfold checkPlace
  by_cases hbit : hasFlag rule.pos bit = true
  case neg => exact ⟨true, if_neg hbit, by simp [hbit]⟩
  rw [if_pos hbit]
  by_cases hnil : out = []
  · subst hnil
    exact ⟨false, rfl, by simp [hbit]⟩
  · have hpos := List.length_pos_iff.mpr hnil
    rw [if_neg (by omega), List.getElem?_eq_getElem (hlt hnil)]
    exact ⟨_, rfl, by simp [hbit]⟩

theorem checkRule_spec {first : ℕ} (rule : TokenRule)
    (hfirst : out[first]? = out.find? (fun tok => !isAnnotationKeyword tok.tp))
    (hlt : out ≠ [] → first < out.length) :
    ∃ b, checkRule out first rule = some b ∧ (b = true ↔ RuleObeyed out rule) := by
  obtain ⟨start, hstart, hstart'⟩ := checkPlace_spec hfirst hlt atStart rule
  obtain ⟨last, hlast, hlast'⟩ := checkPlace_spec (List.getLast?_eq_getElem? (l := out)).symm
    (fun hne => Nat.sub_lt (List.length_pos_iff.mpr hne) Nat.one_pos) atEnd rule
  unfold checkRule
  rw [hstart, hlast]
  by_cases hmin : (counts out rule.v : ℤ) < rule.minCnt
  · rw [if_pos hmin]
    exact ⟨false, rfl, by simpa using fun h : RuleObeyed out rule => absurd h.minCnt (not_le.mpr hmin)⟩
  by_cases hmax : (counts out rule.v : ℤ) > rule.maxCnt
  · rw [if_neg hmin, if_pos hmax]
    exact ⟨false, rfl, by simpa using fun h : RuleObeyed out rule => absurd h.maxCnt (not_le.mpr hmax)⟩
  rw [if_neg hmin, if_neg hmax, Option.bind_eq_bind, Option.bind_some]
  cases start with
  | false =>
    exact ⟨false, rfl, by simpa using fun h : RuleObeyed out rule => absurd (hstart'.mpr h.atStart) (by simp)⟩
  | true =>
    refine ⟨last, rfl, ?_⟩
    rw [hlast']
    exact ⟨fun h => ⟨not_lt.mp hmin, not_lt.mp hmax, hstart'.mp rfl, h⟩, fun h => h.atEnd⟩

theorem allM_spec {α : Type} {f : α → Option Bool} {P : α → Prop} {l : List α}
    (h : ∀ a, ∃ b, f a = some b ∧ (b = true ↔ P a)) :
    ∃ b, l.allM f = some b ∧ (b = true ↔ ∀ a ∈ l, P a) := by
  induction l with
  | nil => exact ⟨true, rfl, by simp⟩
  | cons a l ih =>
    obtain ⟨b, hb, hb'⟩ := h a
    obtain ⟨rest, hrest, hrest'⟩ := ih
    rw [List.allM, hb, Option.bind_eq_bind, Option.bind_some]
    cases b with
    | false => exact ⟨false, rfl, by simpa using fun ha => absurd (hb'.mpr ha) (by simp)⟩
    | true =>
      refine ⟨rest, hrest, ?_⟩
      rw [hrest', List.forall_mem_cons]
      exact (and_iff_right (hb'.mp rfl)).symm

/-- What the table and the flags say of the tokens. -/
structure Enforced (flags prevLen : ℕ) (table : List TokenRule) (out : List (Token Key)) : Prop where
  annotations : AnnotationsObey flags prevLen out
  rules : ∀ rule ∈ table, RuleObeyed out rule

/-- The input is accepted: its items have tokens that obey their rules, and the table and the flags
are enforced, unless nothing is checked. -/
structure Accepted (crypto : PkCrypto Key) (start : Bytes) (hasEnd : Bool) (prev : List (Token Key))
    (table : List TokenRule) (flags : ℕ) (new : List (Token Key)) : Prop where
  noNul : hasEnd = true → 0 ∉ start
  tokens : Tokens crypto table (if hasEnd then start else start.takeWhile (· ≠ 0)) new
  enforced : hasFlag flags tsNocheck = false → Enforced flags prev.length table (prev ++ new)

/-- What is promised of an input: that the function returns, what is in the tokens, and what it is
accepted for. -/
structure TableEnforced (crypto : PkCrypto Key) (start : Bytes) (hasEnd : Bool)
    (prev : List (Token Key)) (table : List TokenRule) (flags : ℕ) : Prop where
  returns : ∃ ret new, tokenizeString crypto start hasEnd prev table flags =
      some (ret, prev ++ new) ∧ (∀ tok ∈ new, TokenIn start tok) ∧
        (ret = 0 ↔ Accepted crypto start hasEnd prev table flags new) ∧ (ret ≠ 0 → ret = -1)
  cursor : ∀ s tok rest, getNextToken crypto table s = some (.ok (tok, rest)) →
    rest <:+ s ∧ rest.length < s.length

theorem checks_spec (flags prevLen : ℕ) (table : List TokenRule) (out : List (Token Key)) :
    (checkAnnotations flags prevLen out = none ∧ ¬Enforced flags prevLen table out) ∨
      ∃ first b, checkAnnotations flags prevLen out = some first ∧
        table.allM (checkRule out first) = some b ∧ (b = true ↔ Enforced flags prevLen table out) := by
  cases hcheck : checkAnnotations flags prevLen out with
  | none =>
    refine .inl ⟨rfl, fun h => ?_⟩
    obtain ⟨first, hfirst⟩ := checkAnnotations_obey h.annotations
    rw [hcheck] at hfirst
    cases hfirst
  | some first =>
    obtain ⟨hobey, hplace, hlt⟩ := checkAnnotations_some hcheck
    obtain ⟨b, hb, hb'⟩ := allM_spec (l := table) fun rule => checkRule_spec rule hplace hlt
    refine .inr ⟨first, b, rfl, hb, ?_⟩
    rw [hb']
    exact ⟨fun h => ⟨hobey, h⟩, fun h => h.rules⟩

theorem tokenizeString_enforces (crypto : PkCrypto Key) (start : Bytes) (hasEnd : Bool)
    (prev : List (Token Key)) (table : List TokenRule) (flags : ℕ) :
    TableEnforced crypto start hasEnd prev table flags := by
  refine ⟨?_, fun s tok rest h => ⟨(getNextToken_spec h).1, (getNextToken_spec h).2.1⟩⟩
  rw [tokenizeString]
  by_cases hnul : hasEnd = true ∧ 0 ∈ start
  · refine ⟨-1, [], ?_, fun tok htok => absurd htok List.not_mem_nil, ?_, fun _ => rfl⟩
    · rw [if_pos hnul, List.append_nil]
      rfl
    · exact ⟨fun h => absurd h (by decide), fun h => absurd hnul.2 (h.noNul hnul.1)⟩
  rw [if_neg hnul]
  have hno : hasEnd = true → 0 ∉ start := fun hend hmem => hnul ⟨hend, hmem⟩
  have hprefix : (if hasEnd then start else start.takeWhile (· ≠ 0)) <:+: start := by
    split
    · exact List.infix_refl start
    · exact (List.takeWhile_prefix _).isInfix
  have haccepted {new : List (Token Key)}
      (htokens : Tokens crypto table (if hasEnd then start else start.takeWhile (· ≠ 0)) new)
      (henforced : hasFlag flags tsNocheck = false → Enforced flags prev.length table (prev ++ new)) :
      Accepted crypto start hasEnd prev table flags new := ⟨hno, htokens, henforced⟩
  obtain ⟨ok, new, hloop, hin, htokens, hcomplete⟩ := tokenizeLoop_spec crypto table
    (if hasEnd then start else start.takeWhile (· ≠ 0)) prev
  have hin' : ∀ tok ∈ new, TokenIn start tok := fun tok htok => (hin tok htok).mono hprefix
  simp only [hloop, Option.bind_eq_bind, Option.bind_some]
  cases ok with
  | false =>
    refine ⟨-1, new, rfl, hin', ⟨fun h => absurd h (by decide), fun h => ?_⟩, fun _ => rfl⟩
    cases hcomplete new h.tokens
  | true =>
    by_cases hcheck : hasFlag flags tsNocheck = true
    · refine ⟨0, new, ?_, hin', ⟨fun _ => haccepted (htokens rfl) ?_, fun _ => rfl⟩, fun h =>
        absurd rfl h⟩
      · rw [if_pos hcheck]
        rfl
      · rw [hcheck]
        exact fun h => absurd h (by simp)
    rw [if_neg hcheck]
    rcases checks_spec flags prev.length table (prev ++ new) with
      ⟨hnone, hnot⟩ | ⟨first, b, hsome, hall, hb⟩
    · rw [hnone]
      exact ⟨-1, new, rfl, hin', ⟨fun h => absurd h (by decide), fun h =>
        absurd (h.enforced (by simpa using hcheck)) hnot⟩, fun _ => rfl⟩
    · simp only [hsome, hall, Option.bind_some]
      cases b with
      | false =>
        exact ⟨-1, new, rfl, hin', ⟨fun h => absurd h (by decide), fun h =>
          absurd (hb.mpr (h.enforced (by simpa using hcheck))) (by simp)⟩, fun _ => rfl⟩
      | true =>
        exact ⟨0, new, rfl, hin', ⟨fun _ => haccepted (htokens rfl) fun _ => hb.mp rfl,
          fun _ => rfl⟩, fun h => absurd rfl h⟩

/-- With `TS_NOCHECK` a document without a router that must be there is accepted. -/
theorem tokenizeString_nocheck :
    let rule : TokenRule := ⟨ascii "router", .kRouter, 5, 2 ^ 31 - 1, false, .noObj, 1, 1, atStart⟩
    let crypto : PkCrypto Unit := ⟨fun _ => none, fun _ => 0, fun _ => false⟩
    tokenizeString crypto [] true [] [rule] tsNocheck = some (0, []) ∧
      ¬rule.minCnt ≤ counts ([] : List (Token Unit)) rule.v := by
  constructor
  · simp [tokenizeString, tokenizeLoop, hasFlag, tsNocheck]
  · decide

end Enforced

end TorDaemon.Dirparse
