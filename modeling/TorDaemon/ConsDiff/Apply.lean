import TorDaemon.ConsDiff.ChangesLongest
import TorDaemon.SharedRandom.Protocol

/-! Applying a diff in a minimal ed format (`apply_ed_diff`): from the last line of the base
document to the first, with one position in the base and one in the script. -/
namespace TorDaemon.ConsDiff
open Library.NetworkOrder
open SharedRandom (decimal)

/-- Why a diff is rejected. -/
inductive ApplyError
  /-- "an ed command was far too long" -/
  | tooLong
  /-- "an ed command was missing a line number." -/
  | missingLineNumber
  /-- "an ed command was missing a range end line number." -/
  | missingRangeEnd
  /-- "an invalid range was found in an ed command." -/
  | invalidRange
  /-- "its commands are not properly sorted in reverse order." -/
  | notSorted
  /-- "a line with no ed command was found" -/
  | noCommand
  /-- "an ed command longer than one char was found." -/
  | longCommand
  /-- "an unrecognised ed command was found." -/
  | unrecognised
  /-- "it wanted to use $ with a command other than delete" -/
  | eofWithoutDelete
  /-- "it wanted to add lines after a range." -/
  | addAfterRange
  /-- "it has lines to be inserted that don't end with a \".\"." -/
  | unterminated
  /-- "it has an ed command that tries to insert zero lines." -/
  | insertsNothing
  /-- Not an error of the source: an index outside of a list. -/
  | outside
  deriving DecidableEq

def smartlistGet (sl : List Line) (i : ℤ) : Except ApplyError Line :=
  if i < 0 then .error .outside
  else
    match sl[i.toNat]? with
    | some line => .ok line
    | none => .error .outside

/-! ### One command -/

def torIsdigit (c : UInt8) : Bool := 48 ≤ c && c ≤ 57

/-- `get_linenum`: the number, and the string after it. -/
def getLinenum (s : Bytes) : Option (ℕ × Bytes) :=
  if s.head?.any torIsdigit then
    if decimal (s.takeWhile torIsdigit) ≤ 2147483647 then
      some (decimal (s.takeWhile torIsdigit), s.dropWhile torIsdigit)
    else none
  else none

inductive Action
  | a
  | c
  | d
  deriving DecidableEq

structure EdCommand where
  start : ℤ
  stop : ℤ
  action : Action
  deriving DecidableEq

/-- The bytes of a line before its first NUL: the nul-terminated copy. -/
def cString (line : Line) : Bytes := line.takeWhile (· ≠ 0)

/-- The end of the range: its line, whether there was a range, whether it was `$`, and the string
after it. -/
def parseRangeEnd (len : ℕ) (start : ℕ) (ptr : Bytes) :
    Except ApplyError (ℤ × Bool × Bool × Bytes) :=
  match ptr with
  | 44 :: 36 :: ptr =>
    if (len : ℤ) ≤ start then .error .invalidRange else .ok (len, true, true, ptr)
  | 44 :: ptr =>
    match getLinenum ptr with
    | none => .error .missingRangeEnd
    | some (stop, ptr) => if stop ≤ start then .error .invalidRange else .ok (stop, true, false, ptr)
  | ptr => .ok (start, false, false, ptr)

/-- The `switch` on the action. -/
def parseAction (c : UInt8) : Except ApplyError Action :=
  if c = 97 then .ok .a
  else if c = 99 then .ok .c
  else if c = 100 then .ok .d
  else .error .unrecognised

/-- The checks of the action, after the range. -/
def checkAction (start stop : ℤ) (hadRange endWasEof : Bool) (action : Action) :
    Except ApplyError EdCommand :=
  if endWasEof ∧ action ≠ .d then .error .eofWithoutDelete
  else if hadRange ∧ action = .a then .error .addAfterRange
  else .ok ⟨start, stop, action⟩

/-- The checks of a command, on a base of `len` lines of which `j` are left. -/
def parseCommand (len : ℕ) (j : ℤ) (line : Line) : Except ApplyError EdCommand :=
  if 127 < line.length then .error .tooLong
  else
    match getLinenum (cString line) with
    | none => .error .missingLineNumber
    | some (start, ptr) =>
      match parseRangeEnd len start ptr with
      | .error err => .error err
      | .ok (stop, hadRange, endWasEof, ptr) =>
        if j < stop then .error .notSorted
        else
          match ptr with
          | [] => .error .noCommand
          | [c] => (parseAction c).bind (checkAction start stop hadRange endWasEof)
          | _ :: _ :: _ => .error .longCommand

/-! ### The loops -/

/-- `for (; j && j > end; --j)`: unchanged lines of the base, from `j` downwards. -/
def addUnchanged (cons1 : List Line) (stop : ℤ) : ℕ → List Line → Except ApplyError (ℤ × List Line)
  | 0, cons2 => .ok (0, cons2)
  | j + 1, cons2 =>
    if ((j + 1 : ℕ) : ℤ) > stop then do
      let line ← smartlistGet cons1 j
      addUnchanged cons1 stop j (cons2 ++ [line])
    else .ok ((j + 1 : ℕ), cons2)

/-- The same loop where `j` may be negative: it is skipped, as `end` is not. -/
def addUnchangedFrom (cons1 : List Line) (stop : ℤ) (j : ℤ) (cons2 : List Line) :
    Except ApplyError (ℤ × List Line) :=
  match j with
  | .ofNat j => addUnchanged cons1 stop j cons2
  | .negSucc j => .ok (.negSucc j, cons2)

/-- `while (--j >= start)`, from a `j` that is not negative. -/
def skipRemoved (start : ℤ) : ℕ → ℤ
  | 0 => -1
  | j + 1 => if (j : ℤ) ≥ start then skipRemoved start j else j

/-- The loop that looks for the "." after the lines to be added, with a bound on its rounds. -/
def findTerminator (diff : List Line) : ℕ → ℕ → Except ApplyError ℕ
  | 0, i => .ok i
  | rounds + 1, i => do
    let line ← smartlistGet diff i
    if linesEq line [46] then .ok i
    else if i + 1 = diff.length then .error .unterminated
    else findTerminator diff rounds (i + 1)

/-- `while (added_i > added_end)`: `n` lines, the last of them first. -/
def addLines (diff : List Line) (addedEnd : ℕ) : ℕ → List Line → Except ApplyError (List Line)
  | 0, cons2 => .ok cons2
  | n + 1, cons2 => do
    let line ← smartlistGet diff (addedEnd + (n + 1) : ℕ)
    addLines diff addedEnd n (cons2 ++ [line])

/-- What an `a` or `c` command at line `i` of the script adds, and where its "." is. -/
def addText (diff : List Line) (i : ℕ) (cons2 : List Line) : Except ApplyError (ℕ × List Line) := do
  let terminator ← findTerminator diff (diff.length - (i + 1)) (i + 1)
  if terminator - 1 = i then .error .insertsNothing
  else do
    let cons2 ← addLines diff i (terminator - 1 - i) cons2
    .ok (terminator, cons2)

/-- A round of the main loop: the next line of the script, the position in the base, and the
lines of the result so far, the last one first. -/
def applyCommand (cons1 diff : List Line) (i : ℕ) (j : ℤ) (cons2 : List Line) :
    Except ApplyError (ℕ × ℤ × List Line) := do
  let line ← smartlistGet diff i
  let cmd ← parseCommand cons1.length j line
  let (j, cons2) ← addUnchangedFrom cons1 cmd.stop j cons2
  let j := if cmd.action = .a then j else skipRemoved cmd.start j.toNat
  if cmd.action = .d then .ok (i + 1, j, cons2)
  else do
    let (i, cons2) ← addText diff i cons2
    .ok (i + 1, j, cons2)

/-- The main loop, with a bound on its rounds. -/
def applyCommands (cons1 diff : List Line) :
    ℕ → ℕ → ℤ → List Line → Except ApplyError (ℤ × List Line)
  | 0, _, j, cons2 => .ok (j, cons2)
  | rounds + 1, i, j, cons2 =>
    if i < diff.length then do
      let (i, j, cons2) ← applyCommand cons1 diff i j cons2
      applyCommands cons1 diff rounds i j cons2
    else .ok (j, cons2)

/-- `apply_ed_diff`. Each round of its loop takes a line of the script at least. -/
def applyEdDiff (cons1 diff : List Line) (diffStartingLine : ℕ) : Except ApplyError (List Line) := do
  let (j, cons2) ← applyCommands cons1 diff (diff.length - diffStartingLine) diffStartingLine
    cons1.length []
  let (_, cons2) ← addUnchangedFrom cons1 0 j cons2
  .ok cons2.reverse

end TorDaemon.ConsDiff
