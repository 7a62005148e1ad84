import Dialogue.Proofs.NameReading

/-!
# The lines of a name table

A name table writes a number, a label and literals, one field a line, with other lines between them
(`TableLines`). A line without a key is passed (`reading_rest`) and a field is one step of the
search (`reading_line`), so what is read off a dump depends on its fields alone
(`reading_of_tableLines`).
-/

namespace Dialogue.Dump

open Text

section Layout

/-- The fields by which a name table is read. -/
inductive NameField
  | index (n : Nat)
  | label (name : Text)
  | literal (value : Text)
deriving DecidableEq, Repr

def NameField.field : NameField → Field
  | .index n => (arrayIndexKey, ofNat n)
  | .label name => (labelNameKey, name)
  | .literal value => (literalKey, value)

def nameKeys : List Text := [arrayIndexKey, labelNameKey, literalKey]

/-- What only a field can hold. -/
def nameMarks : List Text := formMarker :: nameKeys

/-- The text is of one line and holds none of the marks. -/
def FreeOf (marks : List Text) (text : Text) : Prop :=
  '\n' ∉ text ∧ ∀ mark ∈ marks, ¬ mark <:+: text

instance (marks : List Text) (text : Text) : Decidable (FreeOf marks text) :=
  inferInstanceAs (Decidable (_ ∧ _))

theorem FreeOf.of_isInfix {marks : List Text} {part text : Text} (h : FreeOf marks text)
    (hpart : part <:+: text) : FreeOf marks part :=
  ⟨fun hc => h.1 (hpart.subset hc), fun mark hmark hi => h.2 mark hmark (hi.trans hpart)⟩

/-- The line of a field: blanks, a dash or none, the key, and the value with blanks around it. -/
def NamedLine (field : NameField) (line : Text) : Prop :=
  ∃ indent opens tail, Blank indent ∧ FreeOf nameKeys tail
    ∧ line = indent ++ dash opens ++ field.field.1 ++ tail ∧ trim tail = field.field.2

/-- The lines of a name table: its fields in their order, and other lines between them. -/
inductive TableLines : List NameField → List Text → Prop
  | done : TableLines [] []
  | field {field : NameField} {fields : List NameField} {line : Text} {rest : List Text} :
    NamedLine field line → TableLines fields rest → TableLines (field :: fields) (line :: rest)
  | other {fields : List NameField} {line : Text} {rest : List Text} :
    FreeOf nameMarks line → TableLines fields rest →
      TableLines fields (line :: rest)

end Layout

section Reading

variable {heading : Heading}

/-- The digits of a field that is a heading. -/
def Heading.read? : Heading → NameField → Option (List Text)
  | .index, .index n => some [Text.ofNat n]
  | .form, .label name => (Heading.form.digits? name).map (·.1)
  | _, _ => none

/-- The entry that a field completes, and the heading that waits behind it. -/
def Heading.step (heading : Heading) :
    Option (List Text) → NameField → List (List Text × Text) × Option (List Text)
  | some digits, .literal value => ([(digits, unquote value)], none)
  | some digits, _ => ([], some digits)
  | none, field => ([], heading.read? field)

/-- The entries of a sequence of fields. -/
def Heading.run (heading : Heading) :
    Option (List Text) → List NameField → List (List Text × Text)
  | _, [] => []
  | waiting, field :: rest =>
    (heading.step waiting field).1 ++ heading.run (heading.step waiting field).2 rest

theorem sought_mem (heading : Heading) (waiting : Option (List Text)) :
    sought heading waiting ∈ nameKeys := by
  cases waiting <;> cases heading <;> simp [sought, nameKeys, Heading.key]

theorem field_mem (field : NameField) : field.field.1 ∈ nameKeys := by
  cases field <;> simp [NameField.field, nameKeys]

theorem trimStart_blank_line {line : Text} (h : Blank line) (rest : Text) :
    trimStart (line ++ '\n' :: rest) = trimStart rest := by
  have hnewline : Blank ['\n'] := by decide
  rw [trimStart_append h]
  exact trimStart_append hnewline rest

theorem no_newline_of_key : ∀ key ∈ nameKeys, '\n' ∉ key := by decide

/-- A mark starts with a character that stands neither in front of a key nor in a number. -/
theorem head_of_mark {mark : Text} (h : mark ∈ nameMarks) :
    ∃ c, mark.head? = some c ∧ isBlank c = false ∧ c ≠ '-' ∧ c.isDigit = false := by
  have hheads : ∀ mark ∈ nameMarks,
      mark.head?.any (fun c => !isBlank c && (c != '-' && !c.isDigit)) = true := by decide
  obtain ⟨c, hhead, hc⟩ := Option.any_eq_true _ _ |>.1 (hheads mark h)
  exact ⟨c, hhead, by simpa using hc⟩

/-- What stands in front of a key on its line begins no key. -/
theorem silent_front {mark indent : Text} (hmark : mark ∈ nameMarks) (h : Blank indent)
    (opens : Bool) : Silent mark (indent ++ dash opens) := by
  obtain ⟨c, hhead, hblank, hdash, -⟩ := head_of_mark hmark
  refine silent_of_not_mem hhead fun hmem => ?_
  rcases List.mem_append.1 hmem with hmem | hmem
  · rw [h c hmem] at hblank
    cases hblank
  · have hspace : c ≠ ' ' := by
      rintro rfl
      exact absurd hblank (by decide)
    cases opens <;> simp [dash, hdash, hspace] at hmem

/-- The rest of a line in which no key stands is passed. -/
theorem reading_rest {marks : List Text} {line : Text} (h : FreeOf marks line)
    {waiting : Option (List Text)} (hmark : sought heading waiting ∈ marks) (rest : Text) :
    reading heading waiting (line ++ '\n' :: rest) = reading heading waiting rest := by
  have hnewline := no_newline_of_key _ (sought_mem heading waiting)
  have hline := reading_of_silent (silent_concat hnewline (h.2 _ hmark)) rest
  rwa [List.append_assoc] at hline

theorem reading_pass {key tail : Text} {waiting : Option (List Text)} (hkey : key ∈ nameKeys)
    (hne : sought heading waiting ≠ key) (htail : FreeOf nameKeys tail) (rest : Text) :
    reading heading waiting (key ++ (tail ++ '\n' :: rest)) = reading heading waiting rest := by
  have happart : ∀ key ∈ nameKeys, ∀ other ∈ nameKeys, other ≠ key → Silent other key := by decide
  have hmem := sought_mem heading waiting
  rw [reading_of_silent (happart key hkey _ hmem hne), reading_rest htail hmem]

/-- A label without a name is no form's, also where the blanks behind it end on a later line. -/
theorem no_form_of_blank {tail rest : Text} (htail : Blank tail)
    (hrest : ¬ formMarker <+: trimStart rest) :
    Heading.form.digits? (tail ++ '\n' :: rest) = none := by
  rw [Heading.digits?, trimStart_blank_line htail, after?_eq_none hrest]
  rfl

/-- Where a heading is looked for, its digits wait from its line on. -/
theorem reading_heading_line {tail : Text} (htail : FreeOf nameKeys tail) {rest : Text}
    (hindex : heading = .index → trim tail ≠ []) (hrest : ¬ formMarker <+: trimStart rest) :
    reading heading none (heading.key ++ (tail ++ '\n' :: rest))
      = reading heading ((heading.digits? (trim tail)).map (·.1)) rest := by
  have hmem := sought_mem heading none
  obtain ⟨front, back, hfront, hback, hsplit⟩ := exists_append_trim tail
  -- behind a label without a name the blanks are passed with the newline, into the next lines
  by_cases hblank : Blank (trim tail)
  · have hall : Blank tail := by
      rw [hsplit]
      exact List.forall_mem_append.2 ⟨List.forall_mem_append.2 ⟨hfront, hblank⟩, hback⟩
    have hempty : trim tail = [] := trim_of_blank hall
    cases heading with
    | index => exact absurd hempty (hindex rfl)
    | form =>
      rw [reading_no_heading (no_form_of_blank hall hrest), reading_rest htail hmem, hempty]
      rfl
  · have hne : trimStart (trim tail) ≠ [] := fun hnil =>
      hblank (List.dropWhile_eq_nil_iff.1 hnil)
    have hdigits : heading.digits? (tail ++ '\n' :: rest) = (heading.digits? (trim tail)).map
        fun found => (found.1, found.2 ++ (back ++ '\n' :: rest)) := by
      have hvalue := @Heading.digits?_value heading _ _ _ hfront hback hne rest
      rwa [← hsplit] at hvalue
    rcases hread : heading.digits? (trim tail) with _ | ⟨digits, left⟩ <;> rw [hread] at hdigits
    · rw [reading_no_heading hdigits]
      exact reading_rest htail hmem rest
    · -- what is left of the line behind the digits has no literal either
      obtain ⟨read, hvalue, -⟩ := Heading.digits?_split hread
      have hleft : FreeOf nameKeys (left ++ back) := by
        have hsuffix : left ++ back <:+ tail :=
          ⟨front ++ read, by rw [hsplit, hvalue]; simp only [List.append_assoc]⟩
        exact htail.of_isInfix hsuffix.isInfix
      rw [reading_heading hdigits, ← List.append_assoc]
      exact reading_rest hleft (sought_mem heading (some digits)) rest

theorem digits?_ofNat (n : Nat) : Heading.index.digits? (ofNat n) = some ([ofNat n], []) := by
  have hdec : ∀ c ∈ ofNat n, isDecimal c = true := fun _ => isDecimal_of_mem_ofNat
  have hempty : (ofNat n).isEmpty = false := by
    obtain ⟨c, rest, hn, -⟩ := ofNat_eq_cons n
    rw [hn]
    rfl
  have htrim : trimStart (ofNat n) = ofNat n := trimStart_ofInt n
  rw [Heading.digits?, htrim, takeDigits?, List.takeWhile_eq_self_iff.2 hdec,
    List.dropWhile_eq_nil_iff.2 hdec]
  simp only [hempty, Bool.false_eq_true, if_false]
  rfl

theorem Heading.read?_eq (heading : Heading) (field : NameField) : heading.read? field
    = if heading.key = field.field.1 then (heading.digits? field.field.2).map (·.1) else none := by
  have happart : arrayIndexKey ≠ labelNameKey ∧ arrayIndexKey ≠ literalKey
      ∧ labelNameKey ≠ literalKey := by decide
  obtain ⟨h1, h2, h3⟩ := happart
  cases heading <;> cases field <;>
    simp [read?, key, NameField.field, digits?_ofNat, h1, h2, h3, h1.symm]

theorem value_ne_nil_of_index {field : NameField} (h : arrayIndexKey = field.field.1) :
    field.field.2 ≠ [] := by
  cases field with
  | index n =>
    obtain ⟨c, rest, hn, -⟩ := ofNat_eq_cons n
    rw [NameField.field, hn]
    exact List.cons_ne_nil c rest
  | label name => exact absurd h (show arrayIndexKey ≠ labelNameKey by decide)
  | literal value => exact absurd h (show arrayIndexKey ≠ literalKey by decide)

/-- A line with a field is a step of the search. -/
theorem reading_line {field : NameField} {line : Text} (h : NamedLine field line)
    (waiting : Option (List Text)) {rest : Text} (hrest : ¬ formMarker <+: trimStart rest) :
    reading heading waiting (line ++ '\n' :: rest)
      = (heading.step waiting field).1 ++ reading heading (heading.step waiting field).2 rest := by
  obtain ⟨indent, opens, tail, hindent, htail, rfl, hvalue⟩ := h
  have hfront : reading heading waiting
        (indent ++ dash opens ++ field.field.1 ++ tail ++ '\n' :: rest)
      = reading heading waiting (field.field.1 ++ (tail ++ '\n' :: rest)) := by
    rw [List.append_assoc, List.append_assoc]
    exact reading_of_silent
      (silent_front (List.mem_cons_of_mem _ (sought_mem heading waiting)) hindent opens) _
  have hpass : sought heading waiting ≠ field.field.1 →
      reading heading waiting (field.field.1 ++ (tail ++ '\n' :: rest))
        = reading heading waiting rest :=
    fun hne => reading_pass (field_mem field) hne htail rest
  rw [hfront]
  cases waiting with
  | none =>
    rw [Heading.step, Heading.read?_eq, List.nil_append]
    split_ifs with hkey
    · have hindex : heading = .index → trim tail ≠ [] := by
        rintro rfl
        rw [hvalue]
        exact value_ne_nil_of_index hkey
      rw [← hkey, ← hvalue]
      exact reading_heading_line htail hindex hrest
    · exact hpass hkey
  | some digits =>
    cases field with
    | literal value =>
      have hempty : FreeOf nameKeys [] := by decide
      have hnewline : reading heading none ('\n' :: rest) = reading heading none rest :=
        reading_rest hempty (sought_mem heading none) rest
      obtain rfl : trim tail = value := hvalue
      exact (reading_literal digits htail.1 rest).trans (congrArg _ hnewline)
    | index n => exact hpass (show literalKey ≠ arrayIndexKey by decide)
    | label name => exact hpass (show literalKey ≠ labelNameKey by decide)

/-- Lines of a name table begin with no mark of a form, behind whatever blanks. -/
theorem not_marker_of_tableLines {fields : List NameField} {lines : List Text}
    (h : TableLines fields lines) : ¬ formMarker <+: trimStart (terminated lines) := by
  induction h with
  | done => decide
  | @field field fields line rest hline _ _ =>
    obtain ⟨indent, opens, tail, hindent, -, rfl, -⟩ := hline
    have hstart : ∃ c text, dash opens ++ field.field.1 = c :: text ∧ isBlank c = false
        ∧ c ≠ 'Z' := by
      cases opens with
      | true => exact ⟨'-', _, rfl, by decide, by decide⟩
      | false =>
        cases field with
        | index n => exact ⟨'a', _, rfl, by decide, by decide⟩
        | label name => exact ⟨'l', _, rfl, by decide, by decide⟩
        | literal value => exact ⟨'s', _, rfl, by decide, by decide⟩
    obtain ⟨c, text, htext, hc, hne⟩ := hstart
    rw [terminated_cons]
    simp only [List.append_assoc]
    rw [trimStart_append hindent, ← List.append_assoc (dash opens), htext, List.cons_append,
      trimStart_cons hc]
    exact fun hp => hne (List.cons_prefix_cons.1 hp).1.symm
  | @other fields line rest hline _ ih =>
    rw [terminated_cons]
    rcases blank_or_exists line with hblank | ⟨indent, c, text, rfl, hindent, hc⟩
    · rwa [trimStart_blank_line hblank]
    · rw [List.append_assoc, trimStart_append hindent, List.cons_append, trimStart_cons hc,
        ← List.cons_append]
      intro hp
      -- the mark has no newline, so it would stand on this line
      have hoccurs := (prefix_of_prefix_append (by decide) hp).isInfix
      exact hline.2 _ List.mem_cons_self (hoccurs.trans (List.suffix_append indent _).isInfix)

/-- The entries of a dump are those of its fields. -/
theorem reading_of_tableLines {fields : List NameField} {lines : List Text}
    (h : TableLines fields lines) (waiting : Option (List Text)) :
    reading heading waiting (terminated lines) = heading.run waiting fields := by
  -- the induction is on the lines; what waits in front of a line is whatever those before it left
  induction h generalizing waiting with
  | done =>
    cases waiting with
    | none => exact entries.eq_1 heading
    | some digits => rfl
  | field hline hrest ih =>
    rw [terminated_cons, reading_line hline waiting (not_marker_of_tableLines hrest), ih]
    rfl
  | other hline hrest ih =>
    have hmark := List.mem_cons_of_mem formMarker (sought_mem heading waiting)
    rw [terminated_cons, reading_rest hline hmark, ih]

end Reading

end Dialogue.Dump
