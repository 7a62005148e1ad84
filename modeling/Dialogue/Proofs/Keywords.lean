import Dialogue.Proofs.Mentions

/-!
# The words that make references

A reference is made by a word of the code of a line: by `Jump` or `Call` in front of an `@` and a
name (`MarkedAt`), or by the name of a command in front of its list (`CalledAt`). The words of a
text are its longest runs of word characters (`mem_words_iff`). A command in a literal is passed
over, a mark in a literal is not; a mark that makes no reference is named by one in front of it, in
the same literal (`exists_markedReference`). So all references of a line stand outside of its
literals exactly if all of its marks do (`references_clear_iff`). Literals with marks in them do
occur (`not_clear_of_quoted`).
-/

namespace Dialogue

namespace Text

/-- A run of word characters that the text behind it does not go on with. -/
structure LongestWord (word after : Text) : Prop where
  ne_nil : word ≠ []
  isWord : ∀ c ∈ word, Text.isWord c = true
  after : after.head?.any Text.isWord = false

theorem takeWord?_eq_some_iff {text word rest : Text} :
    takeWord? text = some (word, rest) ↔ LongestWord word rest ∧ text = word ++ rest := by
  constructor
  · intro h
    obtain ⟨htext, hrest⟩ := takeWord?_eq_some h
    unfold takeWord? at h
    simp only [] at h
    split_ifs at h with hempty
    cases h
    exact ⟨⟨fun hnil => hempty (List.isEmpty_iff.2 hnil), fun _ hc => List.mem_takeWhile_imp hc,
      hrest⟩, htext⟩
  · rintro ⟨h, rfl⟩
    have hstop : rest.takeWhile isWord = [] ∧ rest.dropWhile isWord = rest := by
      cases rest with
      | nil => exact ⟨rfl, rfl⟩
      | cons c rest =>
        have hc : isWord c = false := h.after
        simp [hc]
    unfold takeWord?
    simp only [List.takeWhile_append_of_pos h.isWord, List.dropWhile_append_of_pos h.isWord, hstop,
      List.append_nil, List.isEmpty_iff, if_neg h.ne_nil]

theorem after?_trimStart_iff {c : Char} (hc : isBlank c = false) {text rest : Text} :
    after? [c] (trimStart text) = some rest
      ↔ ∃ blanks, Blank blanks ∧ text = blanks ++ c :: rest := by
  rw [after?_eq_some_iff]
  constructor
  · intro h
    obtain ⟨blanks, hblanks, htext⟩ := exists_append_trimStart text
    exact ⟨blanks, hblanks, by rw [htext, h]; rfl⟩
  · rintro ⟨blanks, hblanks, rfl⟩
    exact (trimStart_append hblanks _).trans (trimStart_cons hc rest)

end Text

namespace Script

open Text

/-! ## The words of a text -/

/-- A word stands in a text at its offset, and no word character is next to it. -/
def Word.StandsIn (word : Word) (text : Text) : Prop :=
  LongestWord word.text word.after ∧ ∃ front, text = front ++ (word.text ++ word.after)
    ∧ front.length = word.start ∧ front.getLast?.any isWord = false

theorem wordsFrom_eq_nil : ∀ {offset : Nat} {text : Text}, wordsFrom offset text = [] →
    ∀ c ∈ text, isWord c = false
  | _, [], _ => by simp
  | offset, c :: rest, h => by
    unfold wordsFrom at h
    split_ifs at h with hc
    · unfold consWord at h
      split at h
      · cases h
      · split_ifs at h
    · intro d hd
      rcases List.mem_cons.1 hd with rfl | hd
      · exact Bool.eq_false_iff.2 hc
      · exact wordsFrom_eq_nil h d hd

theorem wordsFrom_append_of_not {gap : Text} (h : ∀ c ∈ gap, isWord c = false) (offset : Nat)
    (text : Text) : wordsFrom offset (gap ++ text) = wordsFrom (offset + gap.length) text := by
  induction gap generalizing offset with
  | nil => rfl
  | cons c gap ih =>
    have hc : ¬ isWord c = true := by simp [h c List.mem_cons_self]
    rw [List.cons_append, wordsFrom, if_neg hc, ih (fun d hd => h d (List.mem_cons_of_mem c hd)),
      List.length_cons, Nat.add_assoc, Nat.add_comm 1]

/-- The first word of a text is whole, no word stands in front of it, and the other words are those
behind it. -/
theorem wordsFrom_eq_cons : ∀ {offset : Nat} {text : Text} {word : Word} {more : List Word},
    wordsFrom offset text = word :: more → LongestWord word.text word.after
      ∧ ∃ gap, (∀ c ∈ gap, isWord c = false) ∧ text = gap ++ (word.text ++ word.after)
        ∧ word.start = offset + gap.length
        ∧ more = wordsFrom (word.start + word.text.length) word.after
  | _, [], _, _, h => by simp [wordsFrom] at h
  | offset, c :: rest, word, more, h => by
    unfold wordsFrom at h
    split_ifs at h with hc
    · unfold consWord at h
      split at h
      · rename_i hnone
        obtain ⟨rfl, rfl⟩ := List.cons.inj h
        refine ⟨⟨by simp, by simpa using hc, ?_⟩, [], by simp, rfl, rfl, hnone.symm⟩
        cases rest with
        | nil => rfl
        | cons d rest => exact wordsFrom_eq_nil hnone d List.mem_cons_self
      · rename_i first others hwords
        obtain ⟨hwhole, gap, hgap, hrest, hstart, hothers⟩ := wordsFrom_eq_cons hwords
        split_ifs at h with hnext
        · obtain ⟨rfl, rfl⟩ := List.cons.inj h
          have hnil : gap = [] := List.length_eq_zero_iff.1 (by omega)
          subst hnil
          refine ⟨⟨by simp, ?_, hwhole.after⟩, [], by simp, by simp [hrest], rfl, ?_⟩
          · intro d hd
            rcases List.mem_cons.1 hd with rfl | hd
            · exact hc
            · exact hwhole.isWord d hd
          · rw [hothers, hnext, List.length_cons, Nat.add_assoc, Nat.add_comm 1]
        · obtain ⟨rfl, rfl⟩ := List.cons.inj h
          refine ⟨⟨by simp, by simpa using hc, ?_⟩, [], by simp, rfl, rfl, hwords.symm⟩
          cases gap with
          | nil => exact absurd hstart hnext
          | cons d gap =>
            rw [hrest]
            exact hgap d List.mem_cons_self
    · obtain ⟨hwhole, gap, hgap, rfl, hstart, hmore⟩ := wordsFrom_eq_cons h
      refine ⟨hwhole, c :: gap, ?_, rfl, by rw [hstart, List.length_cons]; omega, hmore⟩
      intro d hd
      rcases List.mem_cons.1 hd with rfl | hd
      · exact Bool.eq_false_iff.2 hc
      · exact hgap d hd

theorem wordsFrom_append {word : Word} (h : LongestWord word.text word.after) :
    wordsFrom word.start (word.text ++ word.after)
      = word :: wordsFrom (word.start + word.text.length) word.after := by
  obtain ⟨c, rest, hword⟩ := List.exists_cons_of_ne_nil h.ne_nil
  have hc : isWord c = true := h.isWord c (by simp [hword])
  rcases hwords : wordsFrom word.start (word.text ++ word.after) with _ | ⟨first, more⟩
  · have hnone := wordsFrom_eq_nil hwords c (by simp [hword])
    rw [hc] at hnone
    cases hnone
  · obtain ⟨hfirst, gap, hgap, htext, hstart, hmore⟩ := wordsFrom_eq_cons hwords
    have hnil : gap = [] := by
      cases gap with
      | nil => rfl
      | cons d gap =>
        rw [hword] at htext
        have hd := hgap d List.mem_cons_self
        rw [← (List.cons.inj htext).1, hc] at hd
        cases hd
    subst hnil
    -- both are the word that the text starts with
    have hsame := takeWord?_eq_some_iff.2 ⟨hfirst, htext⟩
    rw [takeWord?_eq_some_iff.2 ⟨h, rfl⟩] at hsame
    obtain ⟨hsame, hafter⟩ := Prod.mk.inj (Option.some.inj hsame)
    have heq : first = word := by
      cases first
      cases word
      simp_all
    rw [heq] at hmore ⊢
    rw [hmore]

theorem mem_consWord {offset : Nat} {c : Char} {rest : Text} {words : List Word} {word : Word}
    (h : word ∈ words) (hstart : word.start ≠ offset + 1) :
    word ∈ consWord offset c rest words := by
  cases words with
  | nil => cases h
  | cons first more =>
    rw [consWord]
    split_ifs with hfirst
    · rcases List.mem_cons.1 h with rfl | h
      · exact absurd hfirst hstart
      · exact List.mem_cons_of_mem _ h
    · exact List.mem_cons_of_mem _ h

theorem mem_wordsFrom {word : Word} (h : LongestWord word.text word.after) :
    ∀ (front : Text) (offset : Nat), front.getLast?.any isWord = false →
      word.start = offset + front.length →
        word ∈ wordsFrom offset (front ++ (word.text ++ word.after))
  | [], offset, _, hstart => by
    obtain rfl : word.start = offset := hstart
    rw [List.nil_append, wordsFrom_append h]
    exact List.mem_cons_self
  | c :: front, offset, hlast, hstart => by
    rw [List.length_cons] at hstart
    rw [List.cons_append, wordsFrom]
    cases front with
    | nil =>
      have hc : ¬ isWord c = true := by simpa using hlast
      rw [if_neg hc]
      exact mem_wordsFrom h [] (offset + 1) rfl hstart
    | cons d front =>
      rw [List.getLast?_cons_cons] at hlast
      have hmem := mem_wordsFrom h (d :: front) (offset + 1) hlast (by omega)
      split_ifs
      · refine mem_consWord hmem ?_
        rw [hstart, List.length_cons]
        omega
      · exact hmem

theorem standsIn_of_mem : ∀ {words : List Word} {front text : Text} {word : Word},
    wordsFrom front.length text = words → (text.head?.any isWord = true →
      front.getLast?.any isWord = false) → word ∈ words → word.StandsIn (front ++ text)
  | [], _, _, _, _, _, h => by cases h
  | first :: more, front, text, word, hwords, hfront, h => by
    obtain ⟨hwhole, gap, hgap, rfl, hstart, hmore⟩ := wordsFrom_eq_cons hwords
    obtain ⟨c, rest, hfirst⟩ := List.exists_cons_of_ne_nil hwhole.ne_nil
    have hassoc : front ++ (gap ++ (first.text ++ first.after))
        = (front ++ gap ++ first.text) ++ first.after := by
      simp only [List.append_assoc]
    rcases List.mem_cons.1 h with rfl | h
    · refine ⟨hwhole, front ++ gap, by rw [List.append_assoc],
        by rw [hstart, List.length_append], ?_⟩
      rcases List.eq_nil_or_concat gap with rfl | ⟨before, d, rfl⟩
      · rw [List.append_nil]
        refine hfront ?_
        rw [hfirst]
        exact hwhole.isWord c (by simp [hfirst])
      · rw [List.concat_eq_append, ← List.append_assoc, List.getLast?_concat]
        exact hgap d (by simp)
    · rw [hassoc]
      refine standsIn_of_mem ?_ ?_ h
      · rw [hmore, hstart, List.length_append, List.length_append, Nat.add_assoc]
      · intro hhead
        rw [hwhole.after] at hhead
        cases hhead

/-- The words of a text are its longest runs of word characters. -/
theorem mem_words_iff {text : Text} {word : Word} : word ∈ words text ↔ word.StandsIn text := by
  constructor
  · intro h
    have hwords : wordsFrom ([] : Text).length text = words text := rfl
    exact standsIn_of_mem hwords (fun _ => rfl) h
  · rintro ⟨hwhole, front, rfl, hlength, hlast⟩
    exact mem_wordsFrom hwhole front 0 hlast (by omega)

/-! ## The words that make references -/

/-- A word `Jump` or `Call` stands at an offset of a text, with blanks, an `@` and a name behind
it. -/
def MarkedAt (text : Text) (p : Nat) (transfer : Transfer) (target : Text) : Prop :=
  ∃ keyword blanks after, Word.StandsIn ⟨p, keyword, blanks ++ '@' :: (target ++ after)⟩ text
    ∧ Transfer.ofWord? keyword = some transfer ∧ blanks ≠ [] ∧ Blank blanks
    ∧ LongestWord target after

/-- The name of a command stands at an offset of a text, with its list behind it, and the first
argument that is a quoted word is the target. -/
def CalledAt (text : Text) (p : Nat) (transfer : Transfer) (target : Text) : Prop :=
  ∃ name blanks list, Word.StandsIn ⟨p, name, blanks ++ '(' :: list⟩ text
    ∧ Transfer.ofCommand? name = some transfer ∧ Blank blanks
    ∧ (arguments list).findSome? quotedWord? = some target

theorem markedReference?_eq_some_iff {word : Word} {r : Reference} :
    word.markedReference? = some r ↔ r.start = word.start
      ∧ Transfer.ofWord? word.text = some r.transfer ∧ ∃ blanks after,
        word.after = blanks ++ '@' :: (r.target ++ after) ∧ blanks ≠ [] ∧ Blank blanks
          ∧ LongestWord r.target after := by
  have hat : isBlank '@' = false := by decide
  simp only [Word.markedReference?, Option.bind_eq_bind, Option.bind_eq_some_iff]
  constructor
  · rintro ⟨transfer, htransfer, h⟩
    split_ifs at h with hblank
    · simp only [Option.bind_eq_some_iff] at h
      obtain ⟨marked, hmarked, ⟨target, after⟩, htarget, h⟩ := h
      obtain rfl := Option.some.inj h
      obtain ⟨blanks, hblanks, hafter⟩ := (after?_trimStart_iff hat).1 hmarked
      obtain ⟨hword, rfl⟩ := takeWord?_eq_some_iff.1 htarget
      refine ⟨rfl, htransfer, blanks, after, hafter, ?_, hblanks, hword⟩
      rintro rfl
      rw [hafter] at hblank
      exact absurd hblank (by simp [hat])
    · cases h
  · rintro ⟨hstart, htransfer, blanks, after, hafter, hne, hblanks, hword⟩
    obtain ⟨c, more, rfl⟩ := List.exists_cons_of_ne_nil hne
    have hblank : word.after.head?.any isBlank = true := by
      rw [hafter]
      exact hblanks c List.mem_cons_self
    have hmarked := (after?_trimStart_iff hat).2 ⟨c :: more, hblanks, hafter⟩
    refine ⟨r.transfer, htransfer, ?_⟩
    rw [if_pos hblank, hmarked, Option.bind_some, takeWord?_eq_some_iff.2 ⟨hword, rfl⟩,
      Option.bind_some, ← hstart]

theorem commandReference?_eq_some_iff {text : Text} {word : Word} {r : Reference} :
    word.commandReference? text = some r ↔ r.start = word.start
      ∧ Transfer.ofCommand? word.text = some r.transfer
      ∧ opensLiteral (text.take word.start) = false ∧ ∃ blanks list,
        word.after = blanks ++ '(' :: list ∧ Blank blanks
          ∧ (arguments list).findSome? quotedWord? = some r.target := by
  have hparen : isBlank '(' = false := by decide
  simp only [Word.commandReference?, Option.bind_eq_bind, Option.bind_eq_some_iff]
  constructor
  · rintro ⟨transfer, htransfer, list, hlist, h⟩
    split_ifs at h with hquoted
    obtain ⟨target, htarget, h⟩ := Option.bind_eq_some_iff.1 h
    obtain rfl := Option.some.inj h
    obtain ⟨blanks, hblanks, hafter⟩ := (after?_trimStart_iff hparen).1 hlist
    exact ⟨rfl, htransfer, Bool.eq_false_iff.2 hquoted, blanks, list, hafter, hblanks, htarget⟩
  · rintro ⟨hstart, htransfer, hquoted, blanks, list, hafter, hblanks, htarget⟩
    have hlist := (after?_trimStart_iff hparen).2 ⟨blanks, hblanks, hafter⟩
    refine ⟨r.transfer, htransfer, list, hlist, ?_⟩
    rw [hquoted, if_neg Bool.false_ne_true, htarget, Option.bind_some, ← hstart]

theorem opensLiteral_append {more : Text} (h : quote ∉ more) (front : Text) :
    opensLiteral (front ++ more) = opensLiteral front := by
  unfold opensLiteral
  rw [List.count_append, List.count_eq_zero.2 h, Nat.add_zero]

theorem quote_not_mem_of_longestWord {word after : Text} (h : LongestWord word after) :
    quote ∉ word := by
  intro hquote
  have hword := h.isWord quote hquote
  exact absurd hword (by decide)

theorem quote_not_mem_of_blank {blanks : Text} (h : Blank blanks) : quote ∉ blanks := by
  intro hquote
  have hblank := h quote hquote
  exact absurd hblank (by decide)

/-- The words behind a word that makes a reference by a mark: the name, and those behind it. -/
theorem wordsFrom_marked {blanks target after : Text} (hblanks : Blank blanks)
    (htarget : LongestWord target after) (offset : Nat) :
    wordsFrom offset (blanks ++ '@' :: (target ++ after))
      = ⟨offset + (blanks.length + 1), target, after⟩
        :: wordsFrom (offset + (blanks.length + 1) + target.length) after := by
  have hgap : ∀ c ∈ blanks ++ ['@'], isWord c = false := by
    intro c hc
    rcases List.mem_append.1 hc with hc | hc
    · exact isWord_of_isBlank (hblanks c hc)
    · obtain rfl := List.mem_singleton.1 hc
      decide
  have hname : LongestWord (Word.mk (offset + (blanks.length + 1)) target after).text
      (Word.mk (offset + (blanks.length + 1)) target after).after := htarget
  rw [List.append_cons, wordsFrom_append_of_not hgap, List.length_append, List.length_singleton]
  exact wordsFrom_append hname

/-- A word that could make a reference by a mark makes one, unless a word in front of it names it;
and then no quote stands between the two. -/
theorem exists_markedReference : ∀ {words : List Word} (front text : Text) {word : Word}
    {r : Reference}, wordsFrom front.length text = words → word ∈ words →
      word.markedReference? = some r → ∃ other ∈ markedReferences words,
        opensLiteral ((front ++ text).take other.start)
          = opensLiteral ((front ++ text).take word.start)
  | [], _, _, _, _, _, hmem, _ => by cases hmem
  | [only], _, _, word, r, hwords, hmem, hword => by
    obtain rfl := List.mem_singleton.1 hmem
    obtain ⟨-, -, blanks, after, hafter, -, hblanks, htarget⟩ :=
      markedReference?_eq_some_iff.1 hword
    obtain ⟨-, gap, -, -, -, hmore⟩ := wordsFrom_eq_cons hwords
    rw [hafter, wordsFrom_marked hblanks htarget] at hmore
    cases hmore
  | first :: next :: rest, front, text, word, r, hwords, hmem, hword => by
    obtain ⟨hfirst, gap, -, rfl, hstart, hmore⟩ := wordsFrom_eq_cons hwords
    have hlength : (front ++ gap).length = first.start := by rw [hstart, List.length_append]
    rcases hmark : first.markedReference? with _ | made
    · -- the first word makes no reference, and the others are read as if it were not there
      rcases List.mem_cons.1 hmem with rfl | hmem
      · rw [hword] at hmark
        cases hmark
      · have hnext : wordsFrom (front ++ gap ++ first.text).length first.after = next :: rest := by
          rw [List.length_append, hlength, hmore]
        have ih := exists_markedReference (front ++ gap ++ first.text) first.after hnext hmem hword
        simp only [List.append_assoc] at ih
        simpa only [markedReferences, hmark] using ih
    · obtain ⟨hmade, -, blanks, after, hafter, -, hblanks, htarget⟩ :=
        markedReference?_eq_some_iff.1 hmark
      rw [hafter, wordsFrom_marked hblanks htarget] at hmore
      obtain ⟨rfl, hrest⟩ := List.cons.inj hmore
      have hquoteless : quote ∉ first.text ++ (blanks ++ ['@']) := by
        simp only [List.mem_append, not_or]
        exact ⟨quote_not_mem_of_longestWord hfirst, quote_not_mem_of_blank hblanks, by decide⟩
      have hname : (front ++ gap ++ (first.text ++ (blanks ++ ['@']))).length
          = first.start + first.text.length + (blanks.length + 1) := by
        simp only [List.length_append, List.length_singleton] at hlength ⊢
        omega
      have hsplit : front ++ (gap ++ (first.text ++ first.after))
          = front ++ gap ++ (first.text ++ (blanks ++ ['@'])) ++ (made.target ++ after) := by
        rw [hafter]
        simp only [List.append_assoc, List.cons_append, List.nil_append]
      simp only [markedReferences, hmark]
      rcases List.mem_cons.1 hmem with rfl | hmem
      · exact ⟨made, List.mem_cons_self, by rw [hmade]⟩
      rcases List.mem_cons.1 hmem with rfl | hmem
      · refine ⟨made, List.mem_cons_self, ?_⟩
        rw [hmade, hsplit, ← hname, List.take_left, opensLiteral_append hquoteless, ← hlength,
          List.append_assoc, List.take_left]
      · have hbehind : wordsFrom (front ++ gap ++ (first.text ++ (blanks ++ ['@']))
            ++ made.target).length after = rest := by
          rw [List.length_append, hname, hrest]
        obtain ⟨other, hother, hsame⟩ := exists_markedReference _ after hbehind hmem hword
        refine ⟨other, List.mem_cons_of_mem made hother, ?_⟩
        rw [hsplit, ← List.append_assoc]
        exact hsame

/-! ## References outside of literals -/

/-- An offset of a line stands outside of its literals and in front of its comment. -/
structure Clear (line : Text) (p : Nat) : Prop where
  unquoted : opensLiteral (line.take p) = false
  uncommented : ∀ k ≤ p, commentMarker <+: line.drop k → opensLiteral (line.take k) = true

theorem Word.StandsIn.lt {word : Word} {text : Text} (h : word.StandsIn text) :
    word.start < text.length := by
  obtain ⟨hword, front, rfl, hlength, -⟩ := h
  have hpos := List.length_pos_iff.2 hword.ne_nil
  simp only [List.length_append]
  omega

theorem clear_iff {line : Text} {p : Nat} (h : p < (code line).length) :
    Clear line p ↔ opensLiteral ((code line).take p) = false := by
  rw [take_code h]
  refine ⟨Clear.unquoted, fun hp => ⟨hp, fun k hk hmarker => ?_⟩⟩
  exact opensLiteral_of_slashes hmarker (by omega)

theorem mem_references_iff {line : Text} {r : Reference} : r ∈ references line
    ↔ r ∈ markedReferences (words (code line))
      ∨ ∃ word ∈ words (code line), word.commandReference? (code line) = some r := by
  rw [references, List.mem_mergeSort, List.mem_append, List.mem_filterMap]

theorem MarkedAt.lt {text target : Text} {p : Nat} {transfer : Transfer}
    (h : MarkedAt text p transfer target) : p < text.length := by
  obtain ⟨keyword, blanks, after, hword, -⟩ := h
  exact hword.lt

theorem CalledAt.lt {text target : Text} {p : Nat} {transfer : Transfer}
    (h : CalledAt text p transfer target) : p < text.length := by
  obtain ⟨name, blanks, list, hword, -⟩ := h
  exact hword.lt

theorem MarkedAt.of_reference {text : Text} {r : Reference}
    (h : r ∈ markedReferences (words text)) : MarkedAt text r.start r.transfer r.target := by
  obtain ⟨⟨start, keyword, rest⟩, hmem, hword⟩ := mem_markedReferences h
  obtain ⟨hstart, htransfer, blanks, after, hafter, hne, hblanks, htarget⟩ :=
    markedReference?_eq_some_iff.1 hword
  simp only at hstart hafter
  rw [hafter, ← hstart] at hmem
  exact ⟨keyword, blanks, after, mem_words_iff.1 hmem, htransfer, hne, hblanks, htarget⟩

theorem MarkedAt.exists_reference {text target : Text} {p : Nat} {transfer : Transfer}
    (h : MarkedAt text p transfer target) : ∃ other ∈ markedReferences (words text),
      opensLiteral (text.take other.start) = opensLiteral (text.take p) := by
  obtain ⟨keyword, blanks, after, hword, htransfer, hne, hblanks, htarget⟩ := h
  have hmade : (Word.mk p keyword (blanks ++ '@' :: (target ++ after))).markedReference?
      = some ⟨p, transfer, target⟩ :=
    markedReference?_eq_some_iff.2 ⟨rfl, htransfer, blanks, after, rfl, hne, hblanks, htarget⟩
  exact exists_markedReference [] text rfl (mem_words_iff.2 hword) hmade

theorem calledAt_iff {text target : Text} {p : Nat} {transfer : Transfer} :
    CalledAt text p transfer target ∧ opensLiteral (text.take p) = false
      ↔ ∃ word ∈ words text, word.commandReference? text = some ⟨p, transfer, target⟩ := by
  constructor
  · rintro ⟨⟨name, blanks, list, hword, htransfer, hblanks, htarget⟩, hquoted⟩
    exact ⟨_, mem_words_iff.2 hword, commandReference?_eq_some_iff.2
      ⟨rfl, htransfer, hquoted, blanks, list, rfl, hblanks, htarget⟩⟩
  · rintro ⟨⟨start, name, rest⟩, hmem, hword⟩
    obtain ⟨hstart, htransfer, hquoted, blanks, list, hafter, hblanks, htarget⟩ :=
      commandReference?_eq_some_iff.1 hword
    simp only at hstart hafter hquoted
    rw [hafter, ← hstart] at hmem
    rw [← hstart] at hquoted
    exact ⟨⟨name, blanks, list, mem_words_iff.1 hmem, htransfer, hblanks, htarget⟩, hquoted⟩

theorem made_of_mem_references {line : Text} {r : Reference} (h : r ∈ references line) :
    MarkedAt (code line) r.start r.transfer r.target
      ∨ CalledAt (code line) r.start r.transfer r.target ∧ Clear line r.start := by
  rcases mem_references_iff.1 h with hmarked | hcalled
  · exact .inl (.of_reference hmarked)
  · obtain ⟨hcalled, hquoted⟩ := calledAt_iff.2 hcalled
    exact .inr ⟨hcalled, (clear_iff hcalled.lt).2 hquoted⟩

theorem mem_references_of_calledAt {line target : Text} {p : Nat} {transfer : Transfer}
    (h : CalledAt (code line) p transfer target) (hclear : Clear line p) :
    ⟨p, transfer, target⟩ ∈ references line :=
  mem_references_iff.2 (.inr (calledAt_iff.1 ⟨h, (clear_iff h.lt).1 hclear⟩))

/-- A mark in a literal has a reference that is not clear: its own one, or that of a mark that names
its word. -/
theorem all_clear_iff {line : Text} : (∀ r ∈ references line, Clear line r.start)
    ↔ ∀ p transfer target, MarkedAt (code line) p transfer target →
      opensLiteral (line.take p) = false := by
  constructor
  · intro hclear p transfer target hmark
    obtain ⟨other, hother, hsame⟩ := hmark.exists_reference
    have hreported := hclear other (mem_references_iff.2 (.inl hother))
    rw [← take_code hmark.lt, ← hsame]
    exact (clear_iff (MarkedAt.of_reference hother).lt).1 hreported
  · intro hmarks r hr
    rcases made_of_mem_references hr with hmarked | ⟨-, hclear⟩
    · refine (clear_iff hmarked.lt).2 ?_
      rw [take_code hmarked.lt]
      exact hmarks r.start r.transfer r.target hmarked
    · exact hclear

/-- The commands outside of literals make references, and so do the marks, even inside of them. So
all references of a line are clear exactly if no mark is quoted, and an index of files knows no call
sites but for clear references and quoted marks. -/
theorem references_clear_iff (tree : FileTree) (paths : List Text) :
    (∀ line : Text,
      ((∀ r ∈ references line, Clear line r.start)
        ↔ ∀ p transfer target, MarkedAt (code line) p transfer target →
          opensLiteral (line.take p) = false)
      ∧ (∀ r ∈ references line, MarkedAt (code line) r.start r.transfer r.target
          ∨ CalledAt (code line) r.start r.transfer r.target ∧ Clear line r.start)
      ∧ ∀ p transfer target, CalledAt (code line) p transfer target → Clear line p →
          ⟨p, transfer, target⟩ ∈ references line)
    ∧ ∀ index, (Index.ofFiles tree paths).2 = .ok index → ∀ label file n,
        index.Names label file n → ∃ text, LineAt tree paths file n text
          ∧ ((∃ r ∈ references text, r.target = label ∧ Clear text r.start)
            ∨ ∃ p transfer, MarkedAt (code text) p transfer label
              ∧ opensLiteral (text.take p) = true) := by
  refine ⟨fun line => ⟨all_clear_iff, fun r hr => made_of_mem_references hr,
    fun p transfer target hcalled hclear => mem_references_of_calledAt hcalled hclear⟩, ?_⟩
  intro index hindex label file n hnamed
  obtain ⟨text, hline, r, hr, rfl⟩ := (names_ofFiles hindex).1 hnamed
  refine ⟨text, hline, ?_⟩
  rcases made_of_mem_references hr with hmarked | ⟨-, hclear⟩
  · rcases hquoted : opensLiteral (text.take r.start) with _ | _
    · rw [← take_code hmarked.lt] at hquoted
      exact .inl ⟨r, hr, rfl, (clear_iff hmarked.lt).2 hquoted⟩
    · exact .inr ⟨r.start, r.transfer, hmarked, hquoted⟩
  · exact .inl ⟨r, hr, rfl, hclear⟩

/-- A jump of its own, and the mark of a call in a literal. -/
def markedLine : Text := "_JUMP('z') 'Call @y'"

def markedTree : FileTree := ⟨[], .ofList [(["a"], .file (Utf8.encode markedLine))]⟩

theorem references_clear_iff_marked :
    (∃ p transfer target, MarkedAt (code markedLine) p transfer target
        ∧ opensLiteral (markedLine.take p) = true)
      ∧ ∃ index, (Index.ofFiles markedTree [['a']]).2 = .ok index ∧ index.Names "y" "a" 0
        ∧ ∃ text, LineAt markedTree [['a']] "a" 0 text
          ∧ ((∃ r ∈ references text, r.target = "y".toList ∧ Clear text r.start)
            ∨ ∃ p transfer, MarkedAt (code text) p transfer "y"
              ∧ opensLiteral (text.take p) = true) := by
  obtain ⟨hlines, hindexes⟩ := references_clear_iff markedTree [['a']]
  have hpaths : ∀ path ∈ [['a']], Path.holdsNull path = false := by decide
  have hline : LineAt markedTree [['a']] "a" 0 markedLine :=
    ⟨List.mem_singleton_self _, [markedLine], by decide +kernel, rfl⟩
  have hcall : Reference.mk 12 .call "y" ∈ references markedLine :=
    List.mem_mergeSort.2 (by decide +kernel)
  obtain ⟨index, hindex⟩ := Index.exists_ofFiles_iff.2 hpaths
  have hnames : index.Names "y" "a" 0 :=
    (names_ofFiles hindex).2 ⟨markedLine, hline, _, hcall, rfl⟩
  refine ⟨?_, index, hindex, hnames, hindexes index hindex _ _ _ hnames⟩
  by_contra hnone
  have hclear := (hlines markedLine).1.2 (fun p transfer target hmarked =>
    Bool.eq_false_iff.2 fun hquoted => hnone ⟨p, transfer, target, hmarked, hquoted⟩) _ hcall
  exact absurd hclear.unquoted (by decide +kernel)

/-- Text in a literal can be a reference. -/
theorem not_clear_of_quoted : ¬ ∀ line : Text, ∀ r ∈ references line, Clear line r.start := by
  intro h
  have hquoted : Reference.mk 10 .jump "home" ∈ references "_TALKMSG('Jump @home')" := by
    decide +kernel
  have hclear := (h _ _ hquoted).unquoted
  exact absurd hclear (by decide +kernel)

end Script

end Dialogue
