import Mathlib.Data.List.Nodup
import Mathlib.Data.List.TakeWhile

/-! Reading a text up to a delimiter, and texts with a delimiter between them. -/
namespace TorDaemon.Library.Scanner
variable {α : Type*} {p : α → Bool} {l rest : List α} {a : α} {ls : List (List α)}

theorem takeWhile_until (h : ∀ x ∈ l, p x) (ha : p a = false) :
    (l ++ a :: rest).takeWhile p = l := by
  rw [List.takeWhile_append_of_pos h, List.takeWhile_cons_of_neg (by simp [ha]), List.append_nil]

theorem dropWhile_until (h : ∀ x ∈ l, p x) (ha : p a = false) :
    (l ++ a :: rest).dropWhile p = a :: rest := by
  rw [List.dropWhile_append_of_pos h, List.dropWhile_cons_of_neg (by simp [ha])]

theorem dropWhile_length_le (p : α → Bool) (l : List α) : (l.dropWhile p).length ≤ l.length :=
  (List.dropWhile_sublist p).length_le

/-- Something before the delimiter means that less than the text is left. -/
theorem dropWhile_length_lt (h : l.takeWhile p ≠ []) : (l.dropWhile p).length < l.length := by
  have hlength := congrArg List.length (List.takeWhile_append_dropWhile (p := p) (l := l))
  have hpos := List.length_pos_iff.mpr h
  rw [List.length_append] at hlength
  omega

theorem span_append (h : ∀ x ∈ l, p x) (hrest : ∀ x ∈ rest.head?, p x = false) :
    (l ++ rest).takeWhile p = l ∧ (l ++ rest).dropWhile p = rest := by
  rw [List.takeWhile_append_of_pos h, List.dropWhile_append_of_pos h]
  cases rest with
  | nil => simp
  | cons a rest =>
    have ha : p a = false := hrest a rfl
    simp [ha]

/-- What follows the text does not continue it. -/
theorem head_dropWhile (p : α → Bool) (l : List α) : ∀ x ∈ (l.dropWhile p).head?, p x = false := by
  intro x hx
  have hhead := List.head?_dropWhile_not p l
  rw [Option.mem_def.mp hx] at hhead
  simpa using hhead

theorem mem_takeWhile_pos (p : α → Bool) (l : List α) : ∀ x ∈ l.takeWhile p, p x = true :=
  fun _ hx => List.mem_takeWhile_imp hx

theorem append_cons_inj {a : α} {l l' rest rest' : List α} (h : a ∉ l) (h' : a ∉ l')
    (heq : l ++ a :: rest = l' ++ a :: rest') : l = l' ∧ rest = rest' := by
  induction l generalizing l' with
  | nil =>
    cases l' with
    | nil => exact ⟨rfl, (List.cons.inj heq).2⟩
    | cons b l' => exact absurd ((List.cons.inj heq).1 ▸ List.mem_cons_self) h'
  | cons b l ih =>
    cases l' with
    | nil => exact absurd ((List.cons.inj heq).1.symm ▸ List.mem_cons_self) h
    | cons c l' =>
      obtain ⟨rfl, htail⟩ := List.cons.inj heq
      obtain ⟨rfl, hrest⟩ := ih (fun hmem => h (List.mem_cons_of_mem _ hmem))
        (fun hmem => h' (List.mem_cons_of_mem _ hmem)) htail
      exact ⟨rfl, hrest⟩

/-- The texts with a delimiter between them. -/
def joined (a : α) : List (List α) → List α
  | [] => []
  | [l] => l
  | l :: l' :: ls => l ++ a :: joined a (l' :: ls)

theorem joined_ne_nil (h : l ≠ []) : joined a (l :: ls) ≠ [] := by
  cases ls <;> simp [joined, h]

theorem joined_cons (h : ls ≠ []) : joined a (l :: ls) = l ++ a :: joined a ls := by
  cases ls with
  | nil => exact absurd rfl h
  | cons l' ls => rfl

/-- Texts that are not empty take up at least two places each, but for the last delimiter. -/
theorem two_mul_length_le_joined (a : α) (h : ∀ l ∈ ls, l ≠ []) :
    2 * ls.length ≤ (joined a ls).length + 1 := by
  induction ls with
  | nil => exact Nat.zero_le _
  | cons l ls ih =>
    have hpos := List.length_pos_iff.mpr (h l (.head _))
    have hrest := ih fun l' hl' => h l' (.tail _ hl')
    rw [List.length_cons]
    by_cases hls : ls = []
    · subst hls
      rw [joined, List.length_nil]
      omega
    · rw [joined_cons hls, List.length_append, List.length_cons]
      omega

/-- What stands before a delimiter is some of the texts. -/
theorem joined_take (h : ∀ l ∈ ls, a ∉ l) {c : ℕ} (hc : (joined a ls)[c]? = some a) :
    ∃ k, 0 < k ∧ k < ls.length ∧ (joined a ls).take c = joined a (ls.take k) := by
  induction ls generalizing c with
  | nil => simp [joined] at hc
  | cons l ls ih =>
    have hl := h l (.head _)
    have hinside : l[c]? ≠ some a := fun hmem => hl (List.mem_of_getElem? hmem)
    by_cases hls : ls = []
    · subst hls
      exact absurd hc hinside
    rw [joined_cons hls] at hc ⊢
    rcases Nat.lt_trichotomy c l.length with hlt | rfl | hgt
    · rw [List.getElem?_append_left hlt] at hc
      exact absurd hc hinside
    · refine ⟨1, Nat.one_pos, ?_, ?_⟩
      · have hpos := List.length_pos_iff.mpr hls
        rw [List.length_cons]
        omega
      · rw [List.take_left]
        rfl
    · obtain ⟨d, rfl⟩ : ∃ d, c = l.length + (d + 1) := ⟨c - l.length - 1, by omega⟩
      rw [List.getElem?_append_right (by omega), Nat.add_sub_cancel_left,
        List.getElem?_cons_succ] at hc
      obtain ⟨k, hpos, hlt, htake⟩ := ih (fun l' hl' => h l' (.tail _ hl')) hc
      refine ⟨k + 1, Nat.succ_pos k, Nat.succ_lt_succ hlt, ?_⟩
      have hne : ls.take k ≠ [] := by
        intro hnil
        rw [List.take_eq_nil_iff] at hnil
        exact hnil.elim (fun hk => by omega) hls
      rw [List.take_length_add_append, List.take_succ_cons, htake, List.take_succ_cons,
        joined_cons hne]

end TorDaemon.Library.Scanner

/-! Texts of pieces, each of which stands for a value. -/
namespace TorDaemon.Library.Separated
variable {α β : Type*}

/-- Every piece is ended by the separator. -/
inductive Ended (Piece : List α → β → Prop) (sep : α) : List α → List β → Prop
  | nil : Ended Piece sep [] []
  | cons {g s : List α} {w : β} {ws : List β} (head : Piece g w) (tail : Ended Piece sep s ws) :
      Ended Piece sep (g ++ sep :: s) (w :: ws)

/-- Pieces with the separator between them, of which the last may be of another kind. -/
inductive Joined (Piece : List α → β → Prop) (sep : α) (Last : List α → List β → Prop) :
    List α → List β → Prop
  | last {t : List α} {tw : List β} (last : Last t tw) : Joined Piece sep Last t tw
  | cons {g s : List α} {w : β} {ws : List β} (head : Piece g w) (tail : Joined Piece sep Last s ws) :
      Joined Piece sep Last (g ++ sep :: s) (w :: ws)

variable {Piece : List α → β → Prop} {Last : List α → List β → Prop} {sep : α}
  {g s t : List α} {w : β} {ws tw : List β}

theorem Ended.join (h : Ended Piece sep s ws) (ht : Joined Piece sep Last t tw) :
    Joined Piece sep Last (s ++ t) (ws ++ tw) := by
  induction h with
  | nil => exact ht
  | cons head tail ih =>
    rw [List.append_assoc, List.cons_append, List.cons_append]
    exact .cons head ih

theorem joined_iff : Joined Piece sep Last s ws ↔
    ∃ a wa t tw, s = a ++ t ∧ ws = wa ++ tw ∧ Ended Piece sep a wa ∧ Last t tw := by
  constructor
  · intro h
    induction h with
    | @last t tw last => exact ⟨[], [], t, tw, rfl, rfl, .nil, last⟩
    | @cons g s w ws head tail ih =>
      obtain ⟨a, wa, t, tw, rfl, rfl, ha, ht⟩ := ih
      refine ⟨g ++ sep :: a, w :: wa, t, tw, ?_, rfl, .cons head ha, ht⟩
      rw [List.append_assoc, List.cons_append]
  · rintro ⟨a, wa, t, tw, rfl, rfl, ha, ht⟩
    exact ha.join (.last ht)

theorem Ended.getLast? (h : Ended Piece sep s ws) : ws = [] ∧ s = [] ∨ s.getLast? = some sep := by
  induction h with
  | nil => exact .inl ⟨rfl, rfl⟩
  | @cons g s w ws head tail ih =>
    right
    rcases ih with ⟨-, rfl⟩ | ih
    · rw [List.getLast?_append_cons, List.getLast?_singleton]
    · rw [List.getLast?_append_cons, List.getLast?_cons, ih, Option.getD_some]

/-- What is in the pieces, or is the separator, is all there is. -/
theorem Ended.forall_mem {p : α → Prop} (h : Ended Piece sep s ws) (hsep : p sep)
    (hpiece : ∀ g w, Piece g w → ∀ x ∈ g, p x) : ∀ x ∈ s, p x := by
  induction h with
  | nil => simp
  | @cons g s w ws head tail ih =>
    intro x hx
    rcases List.mem_append.mp hx with hx | hx
    · exact hpiece g w head x hx
    · rcases List.mem_cons.mp hx with rfl | hx
      · exact hsep
      · exact ih x hx

end TorDaemon.Library.Separated

/-! When the pieces of a concatenation, and their order, can be read off it. -/
namespace TorDaemon.Library.Concatenation
variable {α β : Type*}

/-- A concatenation determines its pieces where each of them starts with as many
symbols as all the others, by which it is told from them. -/
theorem flatMap_injective_of_prefix {f : α → List β} {n : ℕ} {l l' : List α}
    (hlong : ∀ a ∈ l ++ l', n ≤ (f a).length)
    (hhead : ∀ a ∈ l, ∀ b ∈ l', (f a).take n = (f b).take n → a = b)
    (hlength : l.length = l'.length) (h : l.flatMap f = l'.flatMap f) : l = l' := by
  induction l generalizing l' with
  | nil => exact (List.length_eq_zero_iff.mp hlength.symm).symm
  | cons a l ih =>
    cases l' with
    | nil => simp at hlength
    | cons b l' =>
      have htake := congrArg (List.take n) h
      simp only [List.flatMap_cons] at h htake
      rw [List.take_append_of_le_length (hlong a (by simp)),
        List.take_append_of_le_length (hlong b (by simp))] at htake
      obtain rfl := hhead a (by simp) b (by simp) htake
      have hrest := ih (fun c hc => hlong c (by grind))
        (fun c hc d hd => hhead c (.tail _ hc) d (.tail _ hd)) (by simpa using hlength)
        (List.append_cancel_left h)
      rw [hrest]

/-- Two elements of a duplicate-free list stand in one order only. -/
theorem not_sublist_swap {a b : α} {l : List α} (hl : l.Nodup) (h : [a, b].Sublist l) :
    ¬ [b, a].Sublist l := by
  induction l with
  | nil => simp at h
  | cons c l ih =>
    rw [List.nodup_cons] at hl
    intro h'
    rw [List.sublist_cons_iff] at h h'
    simp only [List.cons.injEq, ↓existsAndEq, and_true, List.singleton_sublist] at h h'
    rcases h with h | ⟨rfl, hb⟩ <;> rcases h' with h' | ⟨hc, ha⟩
    · exact ih hl.2 h h'
    · exact hl.1 (hc ▸ h.subset (by simp))
    · exact hl.1 (h'.subset (by simp))
    · exact hl.1 ha

end TorDaemon.Library.Concatenation
