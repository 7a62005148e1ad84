import Dialogue.Proofs.Digits
import Dialogue.Script.Invocation
import Mathlib.Data.List.Induction

/-!
# The calls that are open at a position

One pass over a line keeps the parentheses that are open, each with the command name in front of it
and the commas directly inside of it (`Pass`). Looking at every opening anew and reading on from
there finds the same: a list that was opened is closed in its own reading exactly where the pass
takes it off (`stillOpen`), so the calls whose lists are open are those that the pass has left
(`calls_readAll`), the innermost one on top.
-/

namespace Dialogue.Script

open Text

/-- The command name in a run of name characters: what is left of it from the first character with
which a name can start. -/
def nameIn? (run : Text) : Option Text :=
  let name := run.dropWhile fun c => !isNameStart c
  if name.isEmpty then none else some name

/-- The command name that a text ends with, blanks behind it left out. -/
def nameBefore? (text : Text) : Option Text :=
  nameIn? ((trimEnd text).reverse.takeWhile isNameChar).reverse

/-- A parenthesis that is open: the command name in front of it, if there is one, the offset just
after it, and the number of commas directly inside of it. -/
structure OpenList where
  name? : Option Text
  start : Nat
  commas : Nat
deriving DecidableEq, Repr

namespace OpenList

def comma (o : OpenList) : OpenList := { o with commas := o.commas + 1 }

/-- The list as that of a call, if there is a name in front of it. -/
def call? (o : OpenList) : Option Enclosing := o.name?.map fun name => ⟨name, o.start, o.commas⟩

end OpenList

/-- What one pass keeps: whether a literal is open, and the parentheses that are, the innermost one
first. -/
structure Pass where
  inside : Bool := false
  stack : List OpenList := []

namespace Pass

/-- One more character, with what stands before it on the line. -/
def read (before : Text) (pass : Pass) (c : Char) : Pass :=
  if c = quote then { pass with inside := !pass.inside }
  else if pass.inside then pass
  else if c = '(' then
    { pass with stack := ⟨nameBefore? before, before.length + 1, 0⟩ :: pass.stack }
  else if c = ')' then { pass with stack := pass.stack.tail }
  else if c = ',' then { pass with stack := pass.stack.modifyHead OpenList.comma }
  else pass

def readAll (before : Text) (pass : Pass) : Text → Pass
  | [] => pass
  | c :: rest => readAll (before ++ [c]) (pass.read before c) rest

def calls (pass : Pass) : List Enclosing := pass.stack.filterMap OpenList.call?

/-- The call of the topmost list that has one. -/
def innermost? (pass : Pass) : Option Enclosing := pass.stack.findSome? OpenList.call?

end Pass

/-! ## The name in front of a parenthesis -/

theorem isBlank_of_isUpper {c : Char} (h : c.isUpper = true) : isBlank c = false := by
  have hrange : 65 ≤ c.toNat ∧ c.toNat ≤ 90 := of_decide_eq_true h
  simp only [isBlank, Bool.or_eq_false_iff, Bool.and_eq_false_iff, decide_eq_false_iff_not,
    beq_eq_false_iff_ne]
  omega

theorem isBlank_of_isNameChar {c : Char} (h : isNameChar c = true) : isBlank c = false := by
  simp only [isNameChar, isNameStart, Bool.or_eq_true, beq_iff_eq] at h
  rcases h with (hupper | rfl) | hdigit
  · exact isBlank_of_isUpper hupper
  · decide
  · exact isBlank_of_isDigit hdigit

theorem isNameChar_of_isBlank {c : Char} (h : isBlank c = true) : isNameChar c = false := by
  by_contra hc
  rw [isBlank_of_isNameChar (by simpa using hc)] at h
  cases h

theorem nameIn?_snoc (run : Text) (c : Char) :
    nameIn? (run ++ [c])
      = ((nameIn? run).map (· ++ [c])).or (if isNameStart c then some [c] else none) := by
  simp only [nameIn?, List.dropWhile_append]
  by_cases hrun : (run.dropWhile fun c => !isNameStart c) = []
  · by_cases hc : isNameStart c = true <;> simp [hrun, hc]
  · simp [hrun]

theorem nameBefore?_snoc (text : Text) {c : Char} (h : isNameChar c = true) :
    nameBefore? (text ++ [c]) = nameIn? ((text.reverse.takeWhile isNameChar).reverse ++ [c]) := by
  rw [nameBefore?, trimEnd_snoc text (isBlank_of_isNameChar h)]
  simp [h]

theorem nameBefore?_snoc_blank (text : Text) {c : Char} (h : isBlank c = true) :
    nameBefore? (text ++ [c]) = nameBefore? text := by
  rw [nameBefore?, trimEnd_snoc_blank text h, nameBefore?]

theorem nameBefore?_snoc_other (text : Text) {c : Char} (h : isNameChar c = false)
    (hb : isBlank c = false) : nameBefore? (text ++ [c]) = none := by
  rw [nameBefore?, trimEnd_snoc text hb]
  simp [h, nameIn?]

/-- Blanks, or nothing, in front of a name character: it is the first one of a run. -/
theorem nameBefore?_snoc_first {text : Text} (ht : ∀ d ∈ text.getLast?, isBlank d = true) {c : Char}
    (h : isNameChar c = true) :
    nameBefore? (text ++ [c]) = if isNameStart c then some [c] else none := by
  have hrun : text.reverse.takeWhile isNameChar = [] := by
    rw [List.getLast?_eq_head?_reverse] at ht
    cases hr : text.reverse with
    | nil => rfl
    | cons d rest => simp [isNameChar_of_isBlank (ht d (by simp [hr]))]
  rw [nameBefore?_snoc text h, hrun]
  exact nameIn?_snoc [] c

/-- No blank in front of a name character: the run goes on. -/
theorem nameBefore?_snoc_next {text : Text} (ht : ∀ d ∈ text.getLast?, isBlank d = false) {c : Char}
    (h : isNameChar c = true) :
    nameBefore? (text ++ [c])
      = ((nameBefore? text).map (· ++ [c])).or (if isNameStart c then some [c] else none) := by
  have hend : trimEnd text = text := by
    rcases List.eq_nil_or_concat' text with rfl | ⟨front, d, rfl⟩
    · rfl
    · exact trimEnd_snoc front (ht d (by simp))
  rw [nameBefore?_snoc text h, nameIn?_snoc, nameBefore?, hend]

/-- The name that is kept while a line is read is the one in front of where the reading is. -/
theorem foldl_nextPending (text : Text) :
    text.foldl nextPending none
      = (nameBefore? text).map fun name => (name, text.getLast?.any isBlank) := by
  induction text using List.reverseRecOn with
  | nil => rfl
  | append_singleton text c ih =>
    rw [List.foldl_append, ih, List.foldl_cons, List.foldl_nil, List.getLast?_concat]
    rcases hc : isNameChar c with _ | _
    · rcases hb : isBlank c with _ | _
      · simp [nextPending, hc, hb, nameBefore?_snoc_other text hc hb]
      · simp [nextPending, hc, hb, nameBefore?_snoc_blank text hb, Function.comp_def]
    · have hb := isBlank_of_isNameChar hc
      rcases hlast : text.getLast?.any isBlank with _ | _
      · rw [nameBefore?_snoc_next (fun d hd => by simpa [Option.mem_def.1 hd] using hlast) hc]
        cases nameBefore? text <;> by_cases hs : isNameStart c = true <;>
          simp [nextPending, hc, hb, hs]
      · rw [nameBefore?_snoc_first (fun d hd => by simpa [Option.mem_def.1 hd] using hlast) hc]
        cases nameBefore? text <;> by_cases hs : isNameStart c = true <;>
          simp [nextPending, hc, hb, hs]

/-! ## The lists that stay open -/

/-- The open lists that are still open behind the rest of a line, the first one with so many lists
open inside of it. -/
def stillOpen (inside : Bool) (rest : Text) (depth : Nat) : List OpenList → List OpenList
  | [] => []
  | o :: stack =>
    ((openArgument? inside depth o.commas rest).map fun k => { o with commas := k }).toList
      ++ stillOpen inside rest (depth + 1) stack

theorem stillOpen_nil (inside : Bool) : ∀ (depth : Nat) (stack : List OpenList),
    stillOpen inside [] depth stack = stack
  | _, [] => rfl
  | depth, o :: stack => by simp [stillOpen, openArgument?, stillOpen_nil inside (depth + 1) stack]

/-- Where all lists from some depth on read a character alike, they stay open as they do behind
it. -/
theorem stillOpen_congr {inside inside' : Bool} {c : Char} {rest : Text} :
    ∀ (depth depth' : Nat) (stack : List OpenList),
      (∀ n k, openArgument? inside (depth + n) k (c :: rest)
        = openArgument? inside' (depth' + n) k rest) →
      stillOpen inside (c :: rest) depth stack = stillOpen inside' rest depth' stack
  | _, _, [], _ => rfl
  | depth, depth', o :: stack, h => by
    have hfirst : openArgument? inside depth o.commas (c :: rest)
        = openArgument? inside' depth' o.commas rest := h 0 o.commas
    have hrest := stillOpen_congr (depth + 1) (depth' + 1) stack fun n k => by
      have hn := h (n + 1) k
      rwa [← Nat.add_assoc, ← Nat.add_assoc, Nat.add_right_comm, Nat.add_right_comm depth'] at hn
    rw [stillOpen, stillOpen, hfirst, hrest]

theorem stillOpen_quote (inside : Bool) (rest : Text) (stack : List OpenList) :
    stillOpen inside (quote :: rest) 0 stack = stillOpen (!inside) rest 0 stack :=
  stillOpen_congr 0 0 stack fun n k => by simp [openArgument?]

theorem stillOpen_literal {c : Char} (hc : c ≠ quote) (rest : Text) (stack : List OpenList) :
    stillOpen true (c :: rest) 0 stack = stillOpen true rest 0 stack :=
  stillOpen_congr 0 0 stack fun n k => by simp [openArgument?, hc]

theorem stillOpen_open (rest : Text) (stack : List OpenList) :
    stillOpen false ('(' :: rest) 0 stack = stillOpen false rest 1 stack :=
  stillOpen_congr 0 1 stack fun n k => by
    rw [Nat.zero_add, Nat.add_comm 1 n]
    rfl

/-- The first list is closed, and the others have one less inside of them. -/
theorem stillOpen_close (rest : Text) : ∀ stack : List OpenList,
    stillOpen false (')' :: rest) 0 stack = stillOpen false rest 0 stack.tail
  | [] => rfl
  | o :: stack => by
    have hrest : stillOpen false (')' :: rest) 1 stack = stillOpen false rest 0 stack :=
      stillOpen_congr 1 0 stack fun n k => by
        rw [Nat.zero_add, Nat.add_comm 1 n]
        rfl
    rw [stillOpen, hrest]
    rfl

/-- A comma counts in the first list only. -/
theorem stillOpen_comma (rest : Text) : ∀ stack : List OpenList,
    stillOpen false (',' :: rest) 0 stack
      = stillOpen false rest 0 (stack.modifyHead OpenList.comma)
  | [] => rfl
  | o :: stack => by
    have hrest : stillOpen false (',' :: rest) 1 stack = stillOpen false rest 1 stack :=
      stillOpen_congr 1 1 stack fun n k => by
        rw [Nat.add_comm 1 n]
        rfl
    rw [stillOpen, hrest]
    rfl

theorem stillOpen_other {c : Char} (hq : c ≠ quote) (hopen : c ≠ '(') (hclose : c ≠ ')')
    (hcomma : c ≠ ',') (rest : Text) (stack : List OpenList) :
    stillOpen false (c :: rest) 0 stack = stillOpen false rest 0 stack :=
  stillOpen_congr 0 0 stack fun n k => by simp [openArgument?, hq, hopen, hclose, hcomma]

/-! ## The calls of a line -/

/-- The call of an opening, if its list is open at the end of the text. -/
def Opening.openCall? (text : Text) (o : Opening) : Option Enclosing :=
  (openArgument? false 0 0 (text.drop o.start)).map fun k => ⟨o.name, o.start, k⟩

/-- The calls that are opened in the rest of a line and not closed there. -/
def openCalls (before : Text) (inside : Bool) (rest : Text) : List Enclosing :=
  ((openingsFrom before.length inside (before.foldl nextPending none) rest).filter
    fun o => !o.quoted).filterMap (Opening.openCall? (before ++ rest))

theorem openCalls_step (before : Text) (inside : Bool) (c : Char) (rest : Text)
    (h : c ≠ '(' ∨ inside = true) :
    openCalls before inside (c :: rest)
      = openCalls (before ++ [c]) (if c = quote then !inside else inside) rest := by
  simp only [openCalls, openingsFrom, List.length_append, List.length_singleton, List.foldl_append,
    List.foldl_cons, List.foldl_nil, List.append_assoc, List.singleton_append]
  split
  · rename_i hname
    rcases h with h | rfl
    · exact absurd rfl h
    · rfl
  · rfl

theorem openCalls_open (before rest : Text) :
    openCalls before false ('(' :: rest)
      = ((nameBefore? before).bind fun name => (openArgument? false 0 0 rest).map fun k =>
          (⟨name, before.length + 1, k⟩ : Enclosing)).toList
        ++ openCalls (before ++ ['(']) false rest := by
  have hdrop : (before ++ '(' :: rest).drop (before.length + 1) = rest := by simp
  simp only [openCalls, openingsFrom, foldl_nextPending before, List.length_append,
    List.length_singleton, List.foldl_append,
    List.foldl_cons, List.foldl_nil, List.append_assoc, List.singleton_append]
  cases nameBefore? before with
  | none => rfl
  | some name =>
    simp only [Option.map_some, Option.bind_some, List.filter_cons, Bool.not_false, if_true,
      List.filterMap_cons, Opening.openCall?, hdrop]
    cases openArgument? false 0 0 rest <;> rfl

/-- The calls that a pass has left are those that were open before and still are, and those that
were opened on the way. -/
theorem calls_readAll : ∀ (before : Text) (pass : Pass) (rest : Text),
    (pass.readAll before rest).calls
      = (openCalls before pass.inside rest).reverse
        ++ (stillOpen pass.inside rest 0 pass.stack).filterMap OpenList.call?
  | before, pass, [] => by rw [stillOpen_nil]; rfl
  | before, ⟨inside, stack⟩, c :: rest => by
    rw [Pass.readAll, calls_readAll (before ++ [c])]
    by_cases hq : c = quote
    · subst hq
      rw [openCalls_step before inside quote rest (.inl (by decide)), stillOpen_quote]
      rfl
    cases inside with
    | true =>
      rw [openCalls_step before true c rest (.inr rfl), stillOpen_literal hq]
      simp only [Pass.read, if_neg hq, if_true]
    | false =>
      by_cases hopen : c = '('
      · subst hopen
        rw [openCalls_open, stillOpen_open]
        simp only [Pass.read, if_neg hq, Bool.false_eq_true, if_false, if_true, stillOpen,
          List.filterMap_append, List.reverse_append, List.append_assoc]
        cases nameBefore? before <;> cases openArgument? false 0 0 rest <;> rfl
      rw [openCalls_step before false c rest (.inl hopen), if_neg hq]
      by_cases hclose : c = ')'
      · subst hclose
        rw [stillOpen_close]
        rfl
      by_cases hcomma : c = ','
      · subst hcomma
        rw [stillOpen_comma]
        rfl
      · rw [stillOpen_other hq hopen hclose hcomma]
        simp [Pass.read, hq, hopen, hclose, hcomma]

theorem lt_start_of_mem : ∀ {text : Text} {offset : Nat} {inside : Bool} {pending : Pending}
    {o : Opening}, o ∈ openingsFrom offset inside pending text → offset < o.start
  | [], _, _, _, _, h => by simp [openingsFrom] at h
  | c :: rest, offset, inside, pending, o, h => by
    simp only [openingsFrom] at h
    split at h
    · rcases List.mem_cons.1 h with rfl | h
      · exact Nat.lt_succ_self _
      · exact Nat.lt_of_succ_lt (lt_start_of_mem h)
    · exact Nat.lt_of_succ_lt (lt_start_of_mem h)

/-- The openings in the first characters of a text are those of the text that end there. -/
theorem openingsFrom_take : ∀ (text : Text) (n offset : Nat) (inside : Bool) (pending : Pending),
    openingsFrom offset inside pending (text.take n)
      = (openingsFrom offset inside pending text).filter fun o => decide (o.start ≤ offset + n)
  | [], n, _, _, _ => by simp [openingsFrom]
  | c :: rest, 0, offset, inside, pending => by
    refine (List.filter_eq_nil_iff.2 fun o ho => ?_).symm
    have hlt := lt_start_of_mem ho
    simp only [decide_eq_true_eq]
    omega
  | c :: rest, n + 1, offset, inside, pending => by
    have ih := fun inside => openingsFrom_take rest n (offset + 1) inside (nextPending pending c)
    have hsum : offset + 1 + n = offset + (n + 1) := by omega
    simp only [hsum] at ih
    rw [List.take_succ_cons]
    simp only [openingsFrom, ih]
    split
    · rw [List.filter_cons_of_pos (by simp)]
    · rfl

theorem enclosing?_eq_getLast? {line : Text} (h : (openings line).length ≤ maxOpenings)
    (position : Nat) :
    enclosing? line position = (openCalls [] false (line.take position)).getLast? := by
  have hcalls : calls line = (openings line).filter fun o => !o.quoted := by
    rw [calls, List.take_of_length_le h]
  have hopen : openCalls [] false (line.take position)
      = (((openings line).filter fun o => decide (o.start ≤ position)).filter
          fun o => !o.quoted).filterMap (Opening.openCall? (line.take position)) := by
    have htake := openingsFrom_take line position 0 false none
    rw [Nat.zero_add] at htake
    exact congrArg (fun l => (l.filter fun o => !o.quoted).filterMap
      (Opening.openCall? (line.take position))) htake
  change ((calls line).filterMap (Opening.enclosing? line position)).getLast? = _
  rw [hcalls, hopen, List.filter_filter, List.filterMap_filter, List.filterMap_filter]
  refine congrArg (fun f => ((openings line).filterMap f).getLast?) (funext fun o => ?_)
  rw [Opening.enclosing?, Opening.openCall?]
  by_cases hstart : o.start ≤ position <;> simp [hstart]

/-- A line on which no more openings stand than are looked at: the innermost call whose list is open
at a position is the topmost one that a single pass up to there has left. -/
theorem enclosing?_eq_innermost {line : Text} (h : (openings line).length ≤ maxOpenings)
    (position : Nat) :
    enclosing? line position = (Pass.readAll [] {} (line.take position)).innermost? := by
  have hcalls := calls_readAll [] {} (line.take position)
  rw [stillOpen, List.filterMap_nil, List.append_nil] at hcalls
  rw [enclosing?_eq_getLast? h, List.getLast?_eq_head?_reverse, ← hcalls, Pass.calls,
    List.head?_filterMap, Pass.innermost?]

/-- Behind a call that is closed and a parenthesis without a name. -/
theorem enclosing?_eq_innermost_nested :
    (openings "OUT(a, (IN(b), 'x,(', )").length ≤ maxOpenings
      ∧ enclosing? "OUT(a, (IN(b), 'x,(', )" (21 : Nat) = some ⟨"OUT", 4, 1⟩
      ∧ (Pass.readAll [] {} ("OUT(a, (IN(b), 'x,(', )".toList.take 21)).innermost?
        = some ⟨"OUT", 4, 1⟩ := by
  have hfew : (openings "OUT(a, (IN(b), 'x,(', )").length ≤ maxOpenings := by decide +kernel
  have hopen : enclosing? "OUT(a, (IN(b), 'x,(', )" (21 : Nat) = some ⟨"OUT", 4, 1⟩ := by
    decide +kernel
  exact ⟨hfew, hopen, (enclosing?_eq_innermost hfew 21).symm.trans hopen⟩

end Dialogue.Script
