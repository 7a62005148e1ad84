import Dialogue.Text.Basic
import Dialogue.Text.CaseTable

/-!
# Lower case

Every capital goes to its lower case. Two rules go beyond one character to one: the dotted
capital I becomes two characters, and a capital sigma becomes a final sigma where it ends a word,
that is where a cased letter stands before it and none after it, marks that carry no case being
passed over.
-/

namespace Dialogue.Text

/-- The lower case of one character, where it is one character and does not depend on its
neighbours. -/
def lowerChar (c : Char) : Char :=
  if c.toNat < 0x80 then c.toLower
  else
    match capitalRuns.find? fun run => decide (run.1 ≤ c.toNat) && decide (c.toNat ≤ run.2.1)
        && (c.toNat - run.1) % run.2.2.1 == 0 with
    | some run => Char.ofNat (c.toNat + run.2.2.2).toNat
    | none => c

def isCased (c : Char) : Bool :=
  c.isAlpha || (0x80 ≤ c.toNat && inRanges casedRanges c.toNat)

def isCaseIgnorable (c : Char) : Bool :=
  if c.toNat < 0x80 then ['\x27', '.', ':', '^', '\x60'].contains c
  else inRanges caseIgnorableRanges c.toNat

/-- Whether the next character that is not passed over is a cased letter. -/
def startsCased (text : Text) : Bool :=
  match text.dropWhile isCaseIgnorable with
  | [] => false
  | c :: _ => isCased c

/-- The lower case of a text that follows a cased letter or does not. -/
def lowerAfter (cased : Bool) : Text → Text
  | [] => []
  | c :: rest =>
    let next := lowerAfter (if isCaseIgnorable c then cased else isCased c) rest
    if c = 'Σ' then (if cased && !startsCased rest then 'ς' else 'σ') :: next
    else if c = 'İ' then 'i' :: '\u0307' :: next
    else lowerChar c :: next

def lower (text : Text) : Text := lowerAfter false text

end Dialogue.Text
