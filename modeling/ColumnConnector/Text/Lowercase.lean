import ColumnConnector.Text.Ranges
import ColumnConnector.Text.CaseTable

/-!
# Lowercase text

The full lowercase form of a text.  Every character is mapped on its own, with two exceptions:
a capital I with a dot becomes two characters, and a capital sigma at the end of a word becomes
the final form of the letter.
-/

namespace ColumnConnector.Text

open CaseTable

def isCased (c : Char) : Bool := withinBounds casedBounds c

def isCaseIgnorable (c : Char) : Bool := withinBounds caseIgnorableBounds c

/-- Does the run map the code point `n`? -/
def inRun (n : Nat) (run : Nat × Nat × Nat × Nat) : Bool :=
  run.1 ≤ n && n ≤ run.2.1 && (n - run.1) % run.2.2.1 == 0

/-- The simple lowercase image of a character. -/
def lowerChar (c : Char) : Char :=
  match lowercaseRuns.find? (inRun c.toNat) with
  | some (first, _, _, image) => Char.ofNat (image + (c.toNat - first))
  | none => c

/-- Does a cased character come next, ignorable ones passed over? -/
def casedNext (cs : List Char) : Bool :=
  match cs.dropWhile isCaseIgnorable with
  | [] => false
  | c :: _ => isCased c

/-- The lowercase form of a character between the reversed text before it and the text after. -/
def lowerWithin (before : List Char) (c : Char) (after : List Char) : List Char :=
  if c = 'Σ' then
    if casedNext before && !casedNext after then ['ς'] else ['σ']
  else if c = 'İ' then ['i', '\u0307']
  else [lowerChar c]

def lowerChars : List Char → List Char → List Char
  | _, [] => []
  | before, c :: after => lowerWithin before c after ++ lowerChars (c :: before) after

def lowercase (s : String) : String := String.ofList (lowerChars [] s.toList)

end ColumnConnector.Text
