import Mathlib.Data.List.TakeDrop

/-! A line editor: lines are appended, changed and deleted in a buffer, one command after the
other, at line numbers counted from 1 or at the last line. -/
namespace TorDaemon.Library.LineEditor
variable {α : Type*} {base tail text buffer : List α} {after first last j : ℕ}

inductive Address
  | line (n : ℕ)
  /-- `$`: the last line of the buffer as it is when the command is executed. -/
  | dollar
  deriving DecidableEq

def Address.resolve (buffer : List α) : Address → ℕ
  | .line n => n
  | .dollar => buffer.length

inductive Command (α : Type*)
  | append (after : ℕ) (text : List α)
  | change (first : ℕ) (last : Address) (text : List α)
  | delete (first : ℕ) (last : Address)
  deriving DecidableEq

/-- Text after a line; line 0 is before the first one. -/
def insertAfter (after : ℕ) (text buffer : List α) : Option (List α) :=
  if after ≤ buffer.length then some (buffer.take after ++ text ++ buffer.drop after) else none

/-- Text in the place of a range of lines. -/
def replaceRange (first last : ℕ) (text buffer : List α) : Option (List α) :=
  if 1 ≤ first ∧ first ≤ last ∧ last ≤ buffer.length then
    some (buffer.take (first - 1) ++ text ++ buffer.drop last)
  else none

def Command.execute (buffer : List α) : Command α → Option (List α)
  | .append after text => insertAfter after text buffer
  | .change first last text => replaceRange first (last.resolve buffer) text buffer
  | .delete first last => replaceRange first (last.resolve buffer) [] buffer

/-- The commands one after the other; one that fails ends the script. -/
def executeAll : List (Command α) → List α → Option (List α)
  | [], buffer => some buffer
  | cmd :: cmds, buffer => (cmd.execute buffer).bind (executeAll cmds)

/-- The lines of the base up to a line, and what follows: the first of them stay. -/
theorem take_append_of_le (h : after ≤ j) (hj : j ≤ base.length) :
    (base.take j ++ tail).take after = base.take after := by
  rw [List.take_append_of_le_length (by rw [List.length_take]; omega), List.take_take,
    Nat.min_eq_left h]

theorem drop_append_of_le (h : after ≤ j) (hj : j ≤ base.length) :
    (base.take j ++ tail).drop after = (base.take j).drop after ++ tail :=
  List.drop_append_of_le_length (by rw [List.length_take]; omega)

theorem insertAfter_of_le (h : after ≤ j) (hj : j ≤ base.length) :
    insertAfter after text (base.take j ++ tail) =
      some (base.take after ++ (text ++ ((base.take j).drop after ++ tail))) := by
  have hlen : after ≤ (base.take j ++ tail).length := by
    rw [List.length_append, List.length_take]
    omega
  rw [insertAfter, if_pos hlen, take_append_of_le h hj, drop_append_of_le h hj, List.append_assoc]

theorem replaceRange_of_le (hfirst : 1 ≤ first) (hrange : first ≤ last) (h : last ≤ j)
    (hj : j ≤ base.length) : replaceRange first last text (base.take j ++ tail) =
      some (base.take (first - 1) ++ (text ++ ((base.take j).drop last ++ tail))) := by
  have hlen : last ≤ (base.take j ++ tail).length := by
    rw [List.length_append, List.length_take]
    omega
  rw [replaceRange, if_pos ⟨hfirst, hrange, hlen⟩, take_append_of_le (by omega) hj,
    drop_append_of_le h hj, List.append_assoc]

end TorDaemon.Library.LineEditor
