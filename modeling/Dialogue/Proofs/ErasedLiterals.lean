import Dialogue.Proofs.ArgumentLists
import Dialogue.Proofs.Digits
import Dialogue.Trace.Writer

/-!
# What a writer is told from

A writer is told from the names of the calls on a line and from the integers that their arguments
start with (`firstWriter?_congr`). Neither is changed when the characters inside of literals are
taken out and the quotes are left: the calls are the same ones (`listsFrom_eraseFrom`), and so are
the arguments, but for what their literals hold (`arguments_eraseFrom`). So lines with the same code
outside of their literals have the same writers (`writer?_eq_of_alike`).
-/

namespace Dialogue

namespace Text

/-- The integer at the start of a scalar ends where neither a digit nor a sign goes on, blanks left
out. -/
theorem leadingInt?_append (front : Text) {back : Text}
    (h : ∀ c, c ∈ back.head? ∨ c ∈ (trimStart back).head? →
      isDecimal c = false ∧ c ≠ '+' ∧ c ≠ '-') :
    leadingInt? (front ++ back) = leadingInt? front := by
  have hsigned : ∀ c rest, takeSign (c :: rest ++ back)
      = ((takeSign (c :: rest)).1, (takeSign (c :: rest)).2 ++ back) := by
    intro c rest
    by_cases hplus : c = '+'
    · subst hplus
      rfl
    by_cases hminus : c = '-'
    · subst hminus
      rfl
    simp [takeSign, hplus, hminus]
  have hdigits : ∀ text : Text, (text ++ back).takeWhile isDecimal = text.takeWhile isDecimal := by
    intro text
    cases back with
    | nil => rw [List.append_nil]
    | cons c rest => exact takeWhile_append_stop (h c (.inl rfl)).1 rest
  rcases blank_or_exists front with hblank | ⟨indent, c, rest, rfl, hindent, hc⟩
  · have hnone : ∀ text : Text, (∀ c ∈ text.head?, isDecimal c = false ∧ c ≠ '+' ∧ c ≠ '-') →
        (takeSign text).2.takeWhile isDecimal = [] := by
      rintro (_ | ⟨c, rest⟩) hhead
      · rfl
      · obtain ⟨hc, hplus, hminus⟩ := hhead c rfl
        simp [takeSign, hplus, hminus, hc]
    have hstart : trimStart front = [] := List.dropWhile_eq_nil_iff.2 hblank
    simp only [leadingInt?, trimStart_append hblank, hstart,
      hnone _ fun c hc => h c (.inr hc)]
    rfl
  · rw [List.append_assoc, List.cons_append]
    simp only [leadingInt?, trimStart_append hindent, trimStart_cons hc]
    rw [← List.cons_append, hsigned]
    simp only [hdigits]

theorem leadingInt?_trim (text : Text) : leadingInt? (trim text) = leadingInt? text := by
  obtain ⟨front, back, hfront, hback, htext⟩ := exists_append_trim text
  have hstop : ∀ c, c ∈ back.head? ∨ c ∈ (trimStart back).head? →
      isDecimal c = false ∧ c ≠ '+' ∧ c ≠ '-' := by
    intro c hc
    have hblank : isBlank c = true := hback c <| hc.elim List.mem_of_mem_head? fun hc =>
      (List.dropWhile_suffix _).subset (List.mem_of_mem_head? hc)
    refine ⟨isDecimal_of_isBlank hblank, ?_, ?_⟩
    all_goals
      rintro rfl
      exact absurd hblank (by decide)
  calc leadingInt? (trim text) = leadingInt? (front ++ trim text) := by
        simp only [leadingInt?, trimStart_append hfront]
    _ = leadingInt? (front ++ trim text ++ back) := (leadingInt?_append _ hstop).symm
    _ = leadingInt? text := by rw [← htext]

end Text

namespace Script

open Text

/-- A line without the characters inside of its literals, read from inside of one or outside. The
quotes stay. -/
def eraseFrom (inside : Bool) : Text → Text
  | [] => []
  | c :: rest =>
    if c = quote then c :: eraseFrom (!inside) rest
    else if inside then eraseFrom inside rest
    else c :: eraseFrom inside rest

/-- A line without what its literals hold. One that is not closed holds the rest of the line. -/
def withoutLiterals (line : Text) : Text := eraseFrom false line

section Erasing

theorem eraseFrom_quote (inside : Bool) (rest : Text) :
    eraseFrom inside (quote :: rest) = quote :: eraseFrom (!inside) rest := by
  simp [eraseFrom]

theorem eraseFrom_inside {c : Char} (hc : c ≠ quote) (rest : Text) :
    eraseFrom true (c :: rest) = eraseFrom true rest := by
  simp [eraseFrom, hc]

theorem eraseFrom_outside {c : Char} (hc : c ≠ quote) (rest : Text) :
    eraseFrom false (c :: rest) = c :: eraseFrom false rest := by
  simp [eraseFrom, hc]

theorem eraseFrom_append {front : Text} (h : quote ∉ front) (rest : Text) :
    eraseFrom false (front ++ rest) = front ++ eraseFrom false rest := by
  induction front with
  | nil => rfl
  | cons c front ih =>
    rw [List.mem_cons, not_or] at h
    rw [List.cons_append, eraseFrom_outside (Ne.symm h.1), ih h.2, List.cons_append]

/-- A text has no literal, or it has one after some text without. -/
theorem eraseFrom_cases (text : Text) : eraseFrom false text = text ∨ ∃ front rest,
    text = front ++ quote :: rest
      ∧ eraseFrom false text = front ++ quote :: eraseFrom true rest := by
  by_cases h : quote ∈ text
  · obtain ⟨front, rest, rfl, hfront⟩ := List.eq_append_cons_of_mem h
    exact .inr ⟨front, rest, rfl, by rw [eraseFrom_append hfront, eraseFrom_quote]; rfl⟩
  · have heq := eraseFrom_append h []
    rw [List.append_nil, eraseFrom, List.append_nil] at heq
    exact .inl heq

theorem leadingInt?_eraseFrom (text : Text) :
    leadingInt? (eraseFrom false text) = leadingInt? text := by
  have hstop : ∀ (front rest : Text), leadingInt? (front ++ quote :: rest) = leadingInt? front := by
    refine fun front rest => leadingInt?_append front fun c hc => ?_
    obtain rfl : quote = c := by simpa [trimStart_cons (by decide : isBlank quote = false)] using hc
    decide
  rcases eraseFrom_cases text with heq | ⟨front, rest, htext, heq⟩
  · rw [heq]
  · rw [heq, htext, hstop, hstop]

/-- Quotes are not blank, so a part is blank exactly if it is without what its literals hold. -/
theorem trim_eraseFrom_eq_nil (text : Text) :
    trim (eraseFrom false text) = [] ↔ trim text = [] := by
  have hquoted : ∀ (front rest : Text), trim (front ++ quote :: rest) ≠ [] := by
    intro front rest h
    obtain ⟨before, after, hbefore, hafter, htext⟩ := exists_append_trim (front ++ quote :: rest)
    have hmem : quote ∈ before ++ after := by
      rw [h, List.append_nil] at htext
      rw [← htext]
      simp
    have hblank : isBlank quote = true := (List.mem_append.1 hmem).elim (hbefore _) (hafter _)
    exact absurd hblank (by decide)
  rcases eraseFrom_cases text with heq | ⟨front, rest, htext, heq⟩
  · rw [heq]
  · rw [heq, htext]
    exact iff_of_false (hquoted _ _) (hquoted _ _)

end Erasing

section Arguments

/-- Parts without what their literals hold, the first one read from inside of a literal or
outside. -/
def eraseParts (inside : Bool) : List Text → List Text
  | [] => []
  | part :: rest => eraseFrom inside part :: rest.map (eraseFrom false)

theorem eraseParts_quote (inside : Bool) (parts : List Text) :
    eraseParts inside (consFirst quote parts) = consFirst quote (eraseParts (!inside) parts) := by
  cases parts with
  | nil => cases inside <;> rfl
  | cons part rest => simp only [consFirst, eraseParts, eraseFrom_quote]

theorem eraseParts_inside {c : Char} (hc : c ≠ quote) {parts : List Text} (hne : parts ≠ []) :
    eraseParts true (consFirst c parts) = eraseParts true parts := by
  obtain ⟨part, rest, rfl⟩ := List.exists_cons_of_ne_nil hne
  simp only [consFirst, eraseParts, eraseFrom_inside hc]

theorem eraseParts_outside {c : Char} (hc : c ≠ quote) {parts : List Text} (hne : parts ≠ []) :
    eraseParts false (consFirst c parts) = consFirst c (eraseParts false parts) := by
  obtain ⟨part, rest, rfl⟩ := List.exists_cons_of_ne_nil hne
  simp only [consFirst, eraseParts, eraseFrom_outside hc]

/-- What literals hold does not part arguments. -/
theorem argumentParts_eraseFrom : ∀ (inside : Bool) (depth : Nat) (text : Text),
    argumentParts inside depth (eraseFrom inside text)
      = eraseParts inside (argumentParts inside depth text)
  | _, _, [] => rfl
  | inside, depth, c :: rest => by
    by_cases hquote : c = quote
    · subst hquote
      rw [eraseFrom_quote, argumentParts_quote, argumentParts_quote,
        argumentParts_eraseFrom (!inside) depth rest, eraseParts_quote]
    have hne := argumentParts_ne_nil false
    cases inside with
    | true =>
      rw [eraseFrom_inside hquote, argumentParts_literal depth rest hquote,
        argumentParts_eraseFrom true depth rest,
        eraseParts_inside hquote (argumentParts_ne_nil true depth rest)]
    | false =>
      rw [eraseFrom_outside hquote]
      by_cases hopen : c = '('
      · subst hopen
        rw [argumentParts_open, argumentParts_open, argumentParts_eraseFrom false (depth + 1) rest,
          eraseParts_outside hquote (hne (depth + 1) rest)]
      by_cases hclose : c = ')'
      · subst hclose
        cases depth with
        | zero => rfl
        | succ depth =>
          rw [argumentParts_close, argumentParts_close, argumentParts_eraseFrom false depth rest,
            eraseParts_outside hquote (hne depth rest)]
      by_cases hcomma : c = ',' ∧ depth = 0
      · obtain ⟨rfl, rfl⟩ := hcomma
        obtain ⟨part, parts, hparts⟩ := List.exists_cons_of_ne_nil (hne 0 rest)
        rw [argumentParts_comma, argumentParts_comma, argumentParts_eraseFrom false 0 rest, hparts]
        rfl
      · rw [argumentParts_other depth _ hquote hopen hclose hcomma,
          argumentParts_other depth _ hquote hopen hclose hcomma,
          argumentParts_eraseFrom false depth rest, eraseParts_outside hquote (hne depth rest)]

/-- The arguments start with the same integers, and there are as many of them. -/
theorem arguments_eraseFrom (text : Text) :
    (arguments (eraseFrom false text)).map leadingInt? = (arguments text).map leadingInt? := by
  have hread : ∀ part, leadingInt? (trim (eraseFrom false part)) = leadingInt? (trim part) := by
    intro part
    rw [leadingInt?_trim, leadingInt?_trim, leadingInt?_eraseFrom]
  obtain ⟨part, rest, hparts⟩ := List.exists_cons_of_ne_nil (argumentParts_ne_nil false 0 text)
  have hempty : (eraseParts false (part :: rest)).map trim = [[]]
      ↔ (part :: rest).map trim = [[]] := by
    cases rest with
    | nil => simpa [eraseParts] using trim_eraseFrom_eq_nil part
    | cons => simp [eraseParts]
  simp only [arguments, argumentParts_eraseFrom, hparts, beq_iff_eq, hempty]
  split_ifs
  · rfl
  · simp [eraseParts, hread]

end Arguments

section Calls

/-- The lists that calls open on the rest of a line: the name of each call, and what stands behind
its parenthesis. -/
def listsFrom (inside : Bool) (pending : Pending) : Text → List (Text × Text)
  | [] => []
  | c :: rest =>
    (if c = '(' ∧ inside = false then (pending.map fun p => (p.1, rest)).toList else [])
      ++ listsFrom (if c = quote then !inside else inside) (nextPending pending c) rest

theorem openingsFrom_cons (offset : Nat) (inside : Bool) (pending : Pending) (c : Char)
    (rest : Text) : openingsFrom offset inside pending (c :: rest)
      = (if c = '(' then (pending.map fun p => ⟨p.1, offset + 1, inside⟩).toList else [])
        ++ openingsFrom (offset + 1) (if c = quote then !inside else inside)
          (nextPending pending c) rest := by
  by_cases hopen : c = '('
  · subst hopen
    rcases pending with _ | ⟨name, closed⟩ <;> rfl
  · rw [if_neg hopen, List.nil_append, openingsFrom]
    exact fun _ _ h => absurd h hopen

/-- The openings outside of literals are those of the lists. -/
theorem map_openingsFrom : ∀ (front : Text) (inside : Bool) (pending : Pending) (text : Text),
    ((openingsFrom front.length inside pending text).filter fun o => !o.quoted).map
        (fun o => (o.name, (front ++ text).drop o.start))
      = listsFrom inside pending text
  | _, _, _, [] => rfl
  | front, inside, pending, c :: rest => by
    have ih := map_openingsFrom (front ++ [c]) (if c = quote then !inside else inside)
      (nextPending pending c) rest
    simp only [List.length_append, List.length_singleton, List.append_assoc,
      List.singleton_append] at ih
    rw [openingsFrom_cons, listsFrom, List.filter_append, List.map_append, ih]
    rcases pending with _ | ⟨name, closed⟩
    · simp
    · cases inside <;> by_cases hopen : c = '(' <;> simp [hopen]

theorem nextPending_quote (pending : Pending) : nextPending pending quote = none := by
  have hname : isNameChar quote = false := by decide
  have hblank : isBlank quote = false := by decide
  simp [nextPending, hname, hblank]

/-- What literals hold neither opens a list nor is part of a name. Inside of a literal it does not
matter which name has been read. -/
theorem listsFrom_eraseFrom : ∀ (text : Text) {inside : Bool} {pending other : Pending},
    inside = true ∨ other = pending → listsFrom inside other (eraseFrom inside text)
      = (listsFrom inside pending text).map fun list => (list.1, eraseFrom false list.2)
  | [], _, _, _, _ => rfl
  | c :: rest, inside, pending, other, h => by
    by_cases hquote : c = quote
    · subst hquote
      have hopen : quote ≠ '(' := by decide
      rw [eraseFrom_quote, listsFrom, listsFrom, nextPending_quote, nextPending_quote,
        if_pos rfl, listsFrom_eraseFrom rest (.inr rfl)]
      simp [hopen]
    cases inside with
    | true =>
      -- the shorter line has not read on, so its pending name is still the one in front
      have ih := @listsFrom_eraseFrom rest true (nextPending pending c) other (.inl rfl)
      rw [eraseFrom_inside hquote, listsFrom, if_neg hquote, ih]
      simp
    | false =>
      obtain rfl : other = pending := h.resolve_left (by decide)
      rw [eraseFrom_outside hquote, listsFrom, listsFrom, if_neg hquote,
        listsFrom_eraseFrom rest (.inr rfl), List.map_append]
      congr 1
      split_ifs
      · cases other <;> rfl
      · rfl

end Calls

/-- What is read of a call: its name, and the integers that its arguments start with. -/
def Invocation.reading (call : Invocation) : Text × List (Except OverlongInteger (Option Int)) :=
  (call.name, call.arguments.map leadingInt?)

/-- If all openings of a line are looked at, its calls are read from the line without what its
literals hold. -/
theorem invocations_reading {line : Text} (h : (openings line).length ≤ maxOpenings) :
    (invocations line).map Invocation.reading
      = (listsFrom false none (withoutLiterals line)).map fun list =>
          (list.1, (arguments list.2).map leadingInt?) := by
  have hlists := map_openingsFrom [] false none line
  rw [invocations, calls, List.take_of_length_le h, withoutLiterals,
    listsFrom_eraseFrom line (.inr rfl), ← hlists, List.map_map, List.map_map, List.map_map]
  exact List.map_congr_left fun o _ => congrArg (Prod.mk o.name) (arguments_eraseFrom _).symm

end Script

namespace Trace

open Script

section Congr

variable {arguments others : List Text} (tag : Int)

theorem argument?_congr (h : arguments.map Text.leadingInt? = others.map Text.leadingInt?)
    (index : Int) : (argument? arguments index).map (Option.map Text.leadingInt?)
      = (argument? others index).map (Option.map Text.leadingInt?) := by
  have hlength : arguments.length = others.length := by simpa using congrArg List.length h
  have hget : ∀ n : Nat,
      arguments[n]?.map Text.leadingInt? = others[n]?.map Text.leadingInt? := by
    intro n
    rw [← List.getElem?_map, h, List.getElem?_map]
  cases index with
  | ofNat n => exact congrArg Except.ok (hget n)
  | negSucc n =>
    simp only [argument?, hlength]
    split_ifs
    · exact congrArg Except.ok (hget _)
    · rfl
    · rfl

theorem writesTag_congr (h : arguments.map Text.leadingInt? = others.map Text.leadingInt?)
    (param : Command.Param) : writesTag tag arguments param = writesTag tag others param := by
  have hread := argument?_congr h param.index.value
  unfold writesTag
  generalize argument? arguments param.index.value = read at hread ⊢
  generalize argument? others param.index.value = read' at hread ⊢
  rcases read with e | _ | argument <;> rcases read' with e' | _ | other <;>
    simp only [Except.map, Option.map_none, Option.map_some, Except.error.injEq, Except.ok.injEq,
      Option.some.injEq, reduceCtorEq] at hread
  · rw [hread]
  · rfl
  · simp only [hread]

theorem someWritesTag_congr (h : arguments.map Text.leadingInt? = others.map Text.leadingInt?) :
    ∀ params : List Command.Param,
      someWritesTag tag arguments params = someWritesTag tag others params
  | [] => rfl
  | param :: rest => by
    rw [someWritesTag, someWritesTag, writesTag_congr tag h, someWritesTag_congr h rest]

variable (schema : Schema) (slot : Slot)

theorem writes_congr {call other : Script.Invocation} (h : call.reading = other.reading) :
    Invocation.writes schema tag slot call = Invocation.writes schema tag slot other := by
  obtain ⟨hname, harguments⟩ := Prod.mk.inj h
  unfold Invocation.writes
  rw [hname]
  split
  · rfl
  · exact someWritesTag_congr tag harguments _

/-- Calls with the same names, whose arguments start with the same integers, have the same writer or
the same fault. -/
theorem firstWriter?_congr : ∀ {calls others : List Script.Invocation},
    calls.map Script.Invocation.reading = others.map Script.Invocation.reading →
      firstWriter? schema tag slot calls = firstWriter? schema tag slot others
  | [], [], _ => rfl
  | [], _ :: _, h => by simp at h
  | _ :: _, [], h => by simp at h
  | call :: calls, other :: others, h => by
    rw [List.map_cons, List.map_cons, List.cons.injEq] at h
    have hname : call.name = other.name := congrArg Prod.fst h.1
    rw [firstWriter?, firstWriter?, writes_congr tag schema slot h.1, hname,
      firstWriter?_congr h.2]

end Congr

/-- Two lines that are the same up to their comments, but for what their literals hold, have the
same writer or the same fault. Openings beyond the first hundred are not looked at, and those in
literals count, so a line has no more of them. -/
theorem writer?_eq_of_alike {line other : Text}
    (halike : withoutLiterals (code line) = withoutLiterals (code other))
    (hline : (openings (code line)).length ≤ maxOpenings)
    (hother : (openings (code other)).length ≤ maxOpenings) (schema : Schema) (tag : Int)
    (slot : Slot) : writer? schema tag slot line = writer? schema tag slot other := by
  refine firstWriter?_congr tag schema slot ?_
  rw [invocations_reading hline, invocations_reading hother, halike]

/-- A command that takes a name as its second argument. -/
def pairSchema : Schema :=
  { hints := .ofList [(⟨.string "SET_PAIR"⟩,
      { name := .string "SET_PAIR"
        params := [{ index := .int 1, types := ["TagIndex".toList] }] })] }

/-- Names, commas, parentheses and slashes in a literal, against another literal and a comment. -/
theorem writer?_eq_of_alike_pair :
    withoutLiterals (code "SET_PAIR('NO(9), 4) //', 3)")
        = withoutLiterals (code "SET_PAIR('', 3)// SET_PAIR(0, 4)")
      ∧ writer? pairSchema 3 .name "SET_PAIR('', 3)// SET_PAIR(0, 4)" = .ok (some "SET_PAIR")
      ∧ writer? pairSchema 3 .name "SET_PAIR('NO(9), 4) //', 3)"
        = writer? pairSchema 3 .name "SET_PAIR('', 3)// SET_PAIR(0, 4)" := by
  have halike : withoutLiterals (code "SET_PAIR('NO(9), 4) //', 3)")
      = withoutLiterals (code "SET_PAIR('', 3)// SET_PAIR(0, 4)") := by decide +kernel
  exact ⟨halike, by decide +kernel,
    writer?_eq_of_alike halike (by decide +kernel) (by decide +kernel) pairSchema 3 .name⟩

end Trace

end Dialogue
