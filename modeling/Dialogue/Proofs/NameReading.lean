import Dialogue.Dump.Names
import Dialogue.Proofs.Blanks
import Dialogue.Proofs.Digits
import Dialogue.Proofs.DumpText

/-!
# Names are read off a whole dump

A dump is searched for a heading, and from a heading on for the next literal, whatever stands
between the two (`reading`). A stretch of text in which no occurrence of what is sought can begin
(`Silent`) is passed (`reading_of_silent`); a heading is taken with its digits (`reading_heading`),
or passed if it has none (`reading_no_heading`), and a literal gives its name to the last heading
that was taken (`reading_literal`).
-/

namespace Dialogue

namespace Text

/-- No occurrence of the needle begins in the text, whatever follows it. -/
def Silent (needle : Text) : Text → Prop
  | [] => True
  | c :: text => ¬ needle <+: c :: text ∧ ¬ c :: text <+: needle ∧ Silent needle text

instance decidableSilent (needle : Text) : ∀ text, Decidable (Silent needle text)
  | [] => .isTrue trivial
  | _ :: text =>
    have := decidableSilent needle text
    inferInstanceAs (Decidable (_ ∧ _ ∧ _))

variable {needle text : Text}

theorem Silent.not_begins {c : Char} (h : Silent needle (c :: text)) (rest : Text) :
    ¬ needle <+: c :: (text ++ rest) := by
  intro hprefix
  rcases List.prefix_or_prefix_of_prefix hprefix (List.prefix_append (c :: text) rest) with hp | hp
  · exact h.1 hp
  · exact h.2.1 hp

theorem silent_cons {c : Char} (h : ∀ rest, ¬ needle <+: c :: (text ++ rest))
    (htext : Silent needle text) : Silent needle (c :: text) := by
  refine ⟨fun hp => h [] (by simpa using hp), ?_, htext⟩
  rintro ⟨rest, rfl⟩
  exact h rest (List.prefix_refl _)

theorem Silent.append : ∀ {first second : Text}, Silent needle first → Silent needle second →
    Silent needle (first ++ second)
  | [], _, _, hsecond => hsecond
  | c :: first, second, hfirst, hsecond => by
    refine silent_cons (fun rest => ?_) (Silent.append hfirst.2.2 hsecond)
    have hnot := hfirst.not_begins (second ++ rest)
    rwa [← List.append_assoc] at hnot

theorem silent_of_not_mem {d : Char} (hneedle : needle.head? = some d) (h : d ∉ text) :
    Silent needle text := by
  obtain ⟨tail, rfl⟩ := List.head?_eq_some_iff.1 hneedle
  induction text with
  | nil => trivial
  | cons c text ih =>
    rw [List.mem_cons, not_or] at h
    exact silent_cons (fun _ hp => h.1 (List.cons_prefix_cons.1 hp).1) (ih h.2)

theorem prefix_of_prefix_append {c : Char} (hc : c ∉ needle) {rest : Text}
    (h : needle <+: text ++ c :: rest) : needle <+: text := by
  have hwhole : text ++ [c] <+: text ++ c :: rest := ⟨rest, by simp⟩
  rcases List.prefix_or_prefix_of_prefix h hwhole with hp | hp
  · rcases List.prefix_concat_iff.1 hp with rfl | hp
    · exact absurd (by simp) hc
    · exact hp
  · exact absurd (hp.subset (by simp)) hc

/-- A text without the needle is silent up to a character that the needle does not have. -/
theorem silent_concat {c : Char} (hc : c ∉ needle) (h : ¬ needle <:+: text) :
    Silent needle (text ++ [c]) := by
  induction text with
  | nil =>
    refine silent_cons (fun rest hp => ?_) trivial
    exact h (@prefix_of_prefix_append needle [] c hc rest hp).isInfix
  | cons d text ih =>
    have htext : ¬ needle <:+: text := fun hi => h (hi.trans (List.suffix_cons d text).isInfix)
    refine silent_cons (fun rest hp => h ?_) (ih htext)
    have hline : d :: (text ++ [c] ++ rest) = (d :: text) ++ c :: rest := by simp
    exact (prefix_of_prefix_append hc (hline ▸ hp)).isInfix

theorem Silent.absent (hneedle : needle ≠ []) : ∀ {text : Text}, Silent needle text →
    ¬ needle <:+: text
  | [], _ => fun h => hneedle (List.infix_nil.1 h)
  | _ :: _, h => fun hi => (List.infix_cons_iff.1 hi).elim h.1 (Silent.absent hneedle h.2.2)

theorem after?_eq_none {rest : Text} (h : ¬ needle <+: rest) : after? needle rest = none := by
  rcases hafter : after? needle rest with _ | tail
  · rfl
  · exact absurd ⟨tail, (after?_eq_some_iff.1 hafter).symm⟩ h

theorem afterFirst?_of_silent (rest : Text) : ∀ {text : Text}, Silent needle text →
    afterFirst? needle (text ++ rest) = afterFirst? needle rest
  | [], _ => rfl
  | c :: text, h => by
    rw [List.cons_append, afterFirst?, after?_eq_none (h.not_begins rest)]
    exact afterFirst?_of_silent rest h.2.2

theorem afterFirst?_append {c : Char} {tail : Text} (h : needle = c :: tail) (rest : Text) :
    afterFirst? needle (needle ++ rest) = some rest := by
  subst h
  rw [List.cons_append, afterFirst?, ← List.cons_append, after?_eq_some_iff.2 rfl]

theorem after?_append {c : Char} (hc : c ∉ needle) (rest : Text) :
    after? needle (text ++ c :: rest) = (after? needle text).map (· ++ c :: rest) := by
  rcases hafter : after? needle text with _ | tail
  · refine after?_eq_none fun hp => ?_
    obtain ⟨tail, htext⟩ := prefix_of_prefix_append hc hp
    rw [after?_eq_some_iff.2 htext.symm] at hafter
    cases hafter
  · rw [after?_eq_some_iff.1 hafter, Option.map_some, after?_eq_some_iff, List.append_assoc]

theorem afterFirst?_of_suffix {part : Text} (hpart : part <:+ text)
    (h : afterFirst? needle text = none) : afterFirst? needle part = none := by
  induction text with
  | nil => rwa [List.suffix_nil.1 hpart]
  | cons c text ih =>
    rcases List.suffix_cons_iff.1 hpart with rfl | hpart
    · exact h
    · unfold afterFirst? at h
      split at h
      · cases h
      · exact ih hpart h

end Text

namespace Dump

open Text

variable {heading : Heading}

theorem entryAt?_eq_none {text : Text} (h : ¬ heading.key <+: text) :
    entryAt? heading text = none := by
  rw [entryAt?, after?_eq_none h]
  rfl

theorem entries_of_none {c : Char} {rest : Text} (h : entryAt? heading (c :: rest) = none) :
    entries heading (c :: rest) = entries heading rest := by
  rw [entries]
  split
  · rename_i found hfound
    rw [h] at hfound
    cases hfound
  · rfl

theorem entries_of_some {c : Char} {rest : Text} {found : List Text × Text × Text}
    (h : entryAt? heading (c :: rest) = some found) :
    entries heading (c :: rest) = (found.1, found.2.1) :: entries heading found.2.2 := by
  rw [entries]
  split
  · rename_i other hother
    obtain rfl := Option.some.inj (h.symm.trans hother)
    rfl
  · rename_i hnone
    rw [h] at hnone
    cases hnone

theorem entries_of_silent (rest : Text) : ∀ {text : Text}, Silent heading.key text →
    entries heading (text ++ rest) = entries heading rest
  | [], _ => rfl
  | c :: text, h => by
    rw [List.cons_append, entries_of_none (entryAt?_eq_none (h.not_begins rest))]
    exact entries_of_silent rest h.2.2

/-! ## Headings -/

theorem takeDigits?_eq_some {text digits rest : Text}
    (h : takeDigits? text = some (digits, rest)) :
    text = digits ++ rest ∧ ∀ c ∈ digits, isDecimal c = true := by
  unfold takeDigits? at h
  simp only [] at h
  split_ifs at h
  cases h
  exact ⟨List.takeWhile_append_dropWhile.symm, fun _ hc => List.mem_takeWhile_imp hc⟩

theorem takeDigits?_append {c : Char} (hc : isBlank c = true) (text rest : Text) :
    takeDigits? (text ++ c :: rest)
      = (takeDigits? text).map fun found => (found.1, found.2 ++ c :: rest) := by
  have hdecimal := isDecimal_of_isBlank hc
  unfold takeDigits?
  simp only [takeWhile_append_stop hdecimal, dropWhile_append_stop hdecimal]
  split <;> rfl

/-- The heading of a form: the mark, and two runs of digits with an underscore between them. -/
theorem form_digits? {text rest : Text} {digits : List Text}
    (h : Heading.form.digits? text = some (digits, rest)) :
    ∃ blanks species shape, text = blanks ++ formMarker ++ species ++ ['_'] ++ shape ++ rest
      ∧ digits = [species, shape] ∧ Blank blanks ∧ (∀ c ∈ species, isDecimal c = true)
      ∧ ∀ c ∈ shape, isDecimal c = true := by
  simp only [Heading.digits?, Option.bind_eq_bind, Option.bind_eq_some_iff, Option.some.injEq,
    Prod.mk.injEq] at h
  obtain ⟨marked, hmarked, ⟨species, scored⟩, hspecies, second, hscore, ⟨shape, left⟩, hshape, rfl,
    rfl⟩ := h
  obtain ⟨rfl, hdec⟩ := takeDigits?_eq_some hspecies
  obtain ⟨rfl, hdec'⟩ := takeDigits?_eq_some hshape
  obtain rfl := after?_eq_some_iff.1 hscore
  obtain ⟨blanks, hblanks, htext⟩ := exists_append_trimStart text
  refine ⟨blanks, species, shape, ?_, rfl, hblanks, hdec, hdec'⟩
  rw [htext, after?_eq_some_iff.1 hmarked]
  simp only [List.append_assoc]

/-- A heading is read up to its last digit, over no text that a literal could begin in. -/
theorem Heading.digits?_split {text rest : Text} {digits : List Text}
    (h : heading.digits? text = some (digits, rest)) :
    ∃ read, text = read ++ rest ∧ 's' ∉ read := by
  have hblanks : ∀ {blanks : Text}, Blank blanks → 's' ∉ blanks :=
    fun hb hs => absurd (hb 's' hs) (by decide)
  have hdigits : ∀ {digits : Text}, (∀ c ∈ digits, isDecimal c = true) → 's' ∉ digits :=
    fun hdec hs => absurd (hdec 's' hs) (by decide)
  cases heading with
  | index =>
    simp only [digits?, Option.bind_eq_bind, Option.bind_eq_some_iff, Option.some.injEq,
      Prod.mk.injEq] at h
    obtain ⟨⟨number, left⟩, hnumber, -, rfl⟩ := h
    obtain ⟨htrim, hdec⟩ := takeDigits?_eq_some hnumber
    obtain ⟨blanks, hb, htext⟩ := exists_append_trimStart text
    refine ⟨blanks ++ number, ?_, by simp [hblanks hb, hdigits hdec]⟩
    rw [List.append_assoc, ← htrim, ← htext]
  | form =>
    obtain ⟨blanks, species, shape, htext, -, hb, hdec, hdec'⟩ := form_digits? h
    have hmarker : 's' ∉ formMarker := by decide
    exact ⟨_, htext, by simp [hblanks hb, hmarker, hdigits hdec, hdigits hdec']⟩

/-- A blank behind a value ends a heading, if there is one in the value. -/
theorem Heading.digits?_append {c : Char} (hc : isBlank c = true) {text : Text}
    (h : trimStart text ≠ []) (rest : Text) :
    heading.digits? (text ++ c :: rest)
      = (heading.digits? text).map fun found => (found.1, found.2 ++ c :: rest) := by
  have htrim : trimStart (text ++ c :: rest) = trimStart text ++ c :: rest := by
    rw [trimStart, List.dropWhile_append, if_neg (by simpa [trimStart] using h)]
    rfl
  have hclear : ∀ {marker : Text}, marker.any isBlank = false → c ∉ marker := by
    intro marker hmarker hmem
    rw [List.any_eq_true.2 ⟨c, hmem, hc⟩] at hmarker
    cases hmarker
  cases heading with
  | index =>
    simp only [digits?, htrim, takeDigits?_append hc]
    rcases takeDigits? (trimStart text) with _ | found <;> rfl
  | form =>
    have hmarker : c ∉ formMarker := hclear (by decide)
    have hscore : c ∉ (['_'] : Text) := hclear (by decide)
    simp only [digits?, htrim, after?_append hmarker]
    rcases after? formMarker (trimStart text) with _ | marked
    · rfl
    simp only [Option.map_some, Option.bind_eq_bind, Option.bind_some, takeDigits?_append hc]
    rcases takeDigits? marked with _ | ⟨species, scored⟩
    · rfl
    simp only [Option.map_some, Option.bind_some, after?_append hscore]
    rcases after? ['_'] scored with _ | second
    · rfl
    simp only [Option.map_some, Option.bind_some, takeDigits?_append hc]
    rcases takeDigits? second with _ | found <;> rfl

/-- A value that is not blank is read without the blanks around it and what follows them. -/
theorem Heading.digits?_value {front back value : Text} (hfront : Blank front) (hback : Blank back)
    (h : trimStart value ≠ []) (rest : Text) :
    heading.digits? (front ++ value ++ back ++ '\n' :: rest)
      = (heading.digits? value).map fun found => (found.1, found.2 ++ (back ++ '\n' :: rest)) := by
  obtain ⟨c, tail, htail, hc⟩ : ∃ c tail, back ++ '\n' :: rest = c :: tail ∧ isBlank c = true := by
    cases back with
    | nil => exact ⟨'\n', rest, rfl, by decide⟩
    | cons c back => exact ⟨c, _, rfl, hback c List.mem_cons_self⟩
  have hskip : ∀ text, heading.digits? (front ++ text) = heading.digits? text := by
    intro text
    cases heading <;> simp only [digits?, trimStart_append hfront]
  rw [List.append_assoc, List.append_assoc, hskip, htail, digits?_append hc h]

/-! ## The search for headings and literals -/

theorem entries_of_no_literal : ∀ {text : Text}, afterFirst? literalKey text = none →
    entries heading text = []
  | [], _ => by rw [entries]
  | c :: text, h => by
    have hnone : entryAt? heading (c :: text) = none := by
      rcases hentry : entryAt? heading (c :: text) with _ | found
      · rfl
      simp only [entryAt?, Option.bind_eq_bind, Option.bind_eq_some_iff] at hentry
      obtain ⟨rest, hkey, ⟨digits, left⟩, hdigits, behind, hliteral, -⟩ := hentry
      obtain ⟨read, rfl, -⟩ := Heading.digits?_split hdigits
      have hsuffix : left <:+ c :: text :=
        ⟨heading.key ++ read, by rw [after?_eq_some_iff.1 hkey, List.append_assoc]⟩
      rw [afterFirst?_of_suffix hsuffix h] at hliteral
      cases hliteral
    rw [entries_of_none hnone]
    exact entries_of_no_literal (afterFirst?_of_suffix (List.suffix_cons c text) h)

/-- The entries from a place on, where the digits of a heading may wait for their literal. -/
def reading (heading : Heading) : Option (List Text) → Text → List (List Text × Text)
  | none, text => entries heading text
  | some digits, text =>
    match afterFirst? literalKey text with
    | some rest => (digits, literalValue rest) :: entries heading (rest.dropWhile (· != '\n'))
    | none => []

/-- What is looked for next. -/
def sought (heading : Heading) : Option (List Text) → Text
  | none => heading.key
  | some _ => literalKey

theorem reading_of_silent {waiting : Option (List Text)} {text : Text}
    (h : Silent (sought heading waiting) text) (rest : Text) :
    reading heading waiting (text ++ rest) = reading heading waiting rest := by
  cases waiting with
  | none => exact entries_of_silent rest h
  | some digits =>
    have hafter : afterFirst? literalKey (text ++ rest) = afterFirst? literalKey rest :=
      afterFirst?_of_silent rest h
    rw [reading, reading, hafter]

theorem reading_heading {text left : Text} {digits : List Text}
    (h : heading.digits? text = some (digits, left)) :
    reading heading none (heading.key ++ text) = reading heading (some digits) left := by
  obtain ⟨c, tail, hkey, hs⟩ : ∃ c tail, heading.key = c :: tail ∧ 's' ∉ tail := by
    cases heading with
    | index => exact ⟨'a', "rrayIndex:".toList, by decide, by decide⟩
    | form => exact ⟨'l', "abelName:".toList, by decide, by decide⟩
  have hafter : after? heading.key (heading.key ++ text) = some text := after?_eq_some_iff.2 rfl
  -- a heading makes an entry only with a literal behind it; without one nothing more is read
  rcases hfind : afterFirst? literalKey left with _ | rest
  · have hentry : entryAt? heading (heading.key ++ text) = none := by
      simp [entryAt?, hafter, h, hfind]
    obtain ⟨read, rfl, hread⟩ := Heading.digits?_split h
    have hsilent : Silent literalKey (tail ++ read) := silent_of_not_mem rfl (by
      rw [List.mem_append, not_or]
      exact ⟨hs, hread⟩)
    have hnone : afterFirst? literalKey (tail ++ (read ++ left)) = none := by
      rw [← List.append_assoc, afterFirst?_of_silent left hsilent, hfind]
    rw [reading, reading, hfind]
    rw [hkey] at hentry ⊢
    exact (entries_of_none hentry).trans (entries_of_no_literal hnone)
  · have hentry : entryAt? heading (heading.key ++ text)
        = some (digits, literalValue rest, rest.dropWhile (· != '\n')) := by
      simp [entryAt?, hafter, h, hfind]
    rw [reading, reading, hfind]
    rw [hkey] at hentry ⊢
    exact entries_of_some hentry

theorem reading_no_heading {text : Text} (h : heading.digits? text = none) :
    reading heading none (heading.key ++ text) = reading heading none text := by
  have hentry : entryAt? heading (heading.key ++ text) = none := by
    simp [entryAt?, after?_eq_some_iff.2 rfl, h]
  obtain ⟨c, tail, hkey, hsilent⟩ :
      ∃ c tail, heading.key = c :: tail ∧ Silent heading.key tail := by
    cases heading with
    | index => exact ⟨'a', "rrayIndex:".toList, by decide, by decide⟩
    | form => exact ⟨'l', "abelName:".toList, by decide, by decide⟩
  rw [reading, reading, ← entries_of_silent text hsilent]
  rw [hkey] at hentry ⊢
  exact entries_of_none hentry

/-- The value of a literal ends with its line. -/
theorem literalValue_append {text : Text} (h : '\n' ∉ text) (rest : Text) :
    literalValue (text ++ '\n' :: rest) = unquote (trim text) := by
  let isGap := fun c : Char => c == ' ' || c == '\t'
  have hgap : isGap '\n' = false := by decide
  have hblank : Blank (text.takeWhile isGap) := by
    intro c hc
    have hc := List.mem_takeWhile_imp hc
    simp only [isGap, Bool.or_eq_true, beq_iff_eq] at hc
    rcases hc with rfl | rfl <;> decide
  have hleft : ∀ c ∈ text.dropWhile isGap, (c != '\n') = true := by
    intro c hc
    refine bne_iff_ne.2 ?_
    rintro rfl
    exact h ((List.dropWhile_sublist isGap).subset hc)
  have hvalue : ((text ++ '\n' :: rest).dropWhile isGap).takeWhile (· != '\n')
      = text.dropWhile isGap := by
    rw [dropWhile_append_stop hgap, takeWhile_append_stop (by decide),
      List.takeWhile_eq_self_iff.2 hleft]
  have htrim : trim (text.dropWhile isGap) = trim text := by
    rw [← trim_append hblank, List.takeWhile_append_dropWhile]
  rw [literalValue, hvalue, htrim]

/-- A literal gives its name to the heading that waits, and headings are looked for again behind its
line. -/
theorem reading_literal (digits : List Text) {text : Text} (h : '\n' ∉ text) (rest : Text) :
    reading heading (some digits) (literalKey ++ (text ++ '\n' :: rest))
      = (digits, unquote (trim text)) :: reading heading none ('\n' :: rest) := by
  have hleft : (text ++ '\n' :: rest).dropWhile (· != '\n') = '\n' :: rest := by
    have hpass : ∀ c ∈ text, (c != '\n') = true := fun c hc => bne_iff_ne.2 (by
      rintro rfl
      exact h hc)
    rw [dropWhile_append_stop (by decide), List.dropWhile_eq_nil_iff.2 hpass]
    rfl
  have hfirst : afterFirst? literalKey (literalKey ++ (text ++ '\n' :: rest))
      = some (text ++ '\n' :: rest) := afterFirst?_append rfl _
  simp only [reading, hfirst, literalValue_append h, hleft]

end Dump

end Dialogue
