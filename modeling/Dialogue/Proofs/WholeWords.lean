import Dialogue.Proofs.Arguments
import Dialogue.Script.Usage

/-!
# Words that stand whole on a line

A label that a line declares or names stands whole on it, in front of its comment (`whole_of_label`,
`whole_of_reference`). A line mentions a word if the word stands whole somewhere and no two slashes
stand in front of it there (`mentions_iff`). Slashes in front of a comment are those of a literal
(`opensLiteral_of_slashes`), so a line that declares or names a label mentions it unless a literal
with slashes hides it (`mentions_iff_not_hides`).
-/

namespace Dialogue

namespace Text

theorem isWord_of_isBlank {c : Char} (h : isBlank c = true) : isWord c = false := by
  have hall : ∀ n ∈ blankPoints, isWord (Char.ofNat n) = false := by decide +kernel
  have hc := hall c.toNat (mem_blankPoints h)
  rwa [Char.ofNat_toNat] at hc

theorem takeWord?_eq_some {text word rest : Text} (h : takeWord? text = some (word, rest)) :
    text = word ++ rest ∧ rest.head?.any isWord = false := by
  unfold takeWord? at h
  simp only [] at h
  split_ifs at h
  cases h
  refine ⟨List.takeWhile_append_dropWhile.symm, ?_⟩
  cases hrest : (text.dropWhile isWord).head? with
  | none => rfl
  | some c => simpa [hrest] using List.head?_dropWhile_not isWord text

/-- Some occurrence of a needle is in front of an offset exactly if the first one is. -/
theorem find?_any_lt {needle : Text} (hne : needle ≠ []) : ∀ (text : Text) (offset : Nat),
    (find? needle text).any (fun k => decide (k < offset)) = true
      ↔ ∃ k < offset, needle <+: text.drop k
  | [], offset => by simp [find?, hne]
  | c :: rest, offset => by
    rw [find?]
    by_cases hp : needle.isPrefixOf (c :: rest) = true
    · have hprefix : needle <+: (c :: rest).drop 0 := List.isPrefixOf_iff_prefix.1 hp
      rw [if_pos hp, Option.any_some, decide_eq_true_eq]
      constructor
      · exact fun h => ⟨0, h, hprefix⟩
      · rintro ⟨k, hk, -⟩
        exact Nat.zero_lt_of_lt hk
    · have ih := find?_any_lt hne rest (offset - 1)
      have hcut : ∀ k, k + 1 < offset ↔ k < offset - 1 := by omega
      rw [if_neg hp, Option.any_map]
      simp only [hcut]
      rw [ih]
      constructor
      · rintro ⟨k, hk, hprefix⟩
        exact ⟨k + 1, (hcut k).2 hk, hprefix⟩
      · rintro ⟨k, hk, hprefix⟩
        cases k with
        | zero => exact absurd (List.isPrefixOf_iff_prefix.2 hprefix) hp
        | succ k => exact ⟨k, (hcut k).1 hk, hprefix⟩

end Text

namespace Script

open Text

/-- A word stands whole at an offset of a line. -/
def WholeAt (word line : Text) (p : Nat) : Prop :=
  ∃ front after, line = front ++ (word ++ after) ∧ front.length = p
    ∧ freesStart front.getLast? = true ∧ after.head?.any isWord = false

/-! ## Labels that are declared and named -/

theorem wholeAt_of_takeWord? {text front rest word after : Text} (htext : text = front ++ rest)
    (hword : takeWord? rest = some (word, after)) (hfree : freesStart front.getLast? = true) :
    WholeAt word text front.length := by
  obtain ⟨rfl, hafter⟩ := takeWord?_eq_some hword
  exact ⟨front, after, htext, rfl, hfree, hafter⟩

theorem freesStart_of_blanks {text : Text} (h : Blank text) : freesStart text.getLast? = true := by
  cases hlast : text.getLast? with
  | none => rfl
  | some c =>
    have hblank := h c (List.mem_of_getLast? hlast)
    have hne : c ≠ '#' ∧ c ≠ '$' := by
      constructor
      all_goals
        rintro rfl
        exact absurd hblank (by decide)
    simp [freesStart, isWord_of_isBlank hblank, hne]

theorem suffix_of_after? {start text rest : Text} (h : after? start text = some rest) :
    rest <:+ text :=
  ⟨start, (after?_eq_some_iff.1 h).symm⟩

theorem suffix_of_trimStart (text : Text) : trimStart text <:+ text := List.dropWhile_suffix _

theorem wholeAt_of_marked {text rest marked word after : Text} (hrest : rest <:+ text)
    (hmarked : after? ['@'] (trimStart rest) = some marked)
    (hword : takeWord? marked = some (word, after)) : ∃ p, WholeAt word text p := by
  obtain ⟨front, rfl⟩ := (suffix_of_trimStart rest).trans hrest
  rw [after?_eq_some_iff.1 hmarked]
  refine ⟨_, wholeAt_of_takeWord? (List.append_assoc front ['@'] marked).symm hword ?_⟩
  rw [List.getLast?_concat]
  decide

theorem wholeAt_of_quotedWord? {text argument word : Text} (hargument : argument <:+: text)
    (h : quotedWord? argument = some word) : ∃ p, WholeAt word text p := by
  simp only [quotedWord?, Option.bind_eq_bind, Option.bind_eq_some_iff] at h
  obtain ⟨rest, hrest, ⟨name, closing⟩, hword, h⟩ := h
  split_ifs at h with hclosing
  obtain rfl := Option.some.inj h
  obtain ⟨front, back, rfl⟩ := hargument
  have hclosed : closing = [quote] := beq_iff_eq.1 hclosing
  obtain ⟨rfl, -⟩ := takeWord?_eq_some hword
  rw [after?_eq_some_iff.1 hrest, hclosed]
  have hafter : isWord quote = false := by decide
  refine ⟨_, front ++ [quote], [quote] ++ back, by simp, rfl, ?_, hafter⟩
  rw [List.getLast?_concat]
  decide

theorem wholeAt_of_label? {line word : Text} (h : label? line = some word) :
    ∃ p, WholeAt word (code line) p := by
  rcases hmarker : labelAfterMarker? (code line) with _ | name
  · have hcolon : labelBeforeColon? (code line) = some word := by simpa [label?, hmarker] using h
    simp only [labelBeforeColon?, Option.bind_eq_bind, Option.bind_eq_some_iff] at hcolon
    obtain ⟨⟨name, after⟩, hword, rest, hrest, h⟩ := hcolon
    split_ifs at h
    obtain rfl := Option.some.inj h
    have hblanks : Blank ((code line).takeWhile isBlank) := fun _ hc => List.mem_takeWhile_imp hc
    exact ⟨_, wholeAt_of_takeWord? List.takeWhile_append_dropWhile.symm hword
      (freesStart_of_blanks hblanks)⟩
  · have hname : name = word := by simpa [label?, hmarker] using h
    subst hname
    simp only [labelAfterMarker?, Option.bind_eq_bind, Option.bind_eq_some_iff] at hmarker
    obtain ⟨rest, hrest, hmarker⟩ := hmarker
    split_ifs at hmarker
    · simp only [Option.bind_eq_some_iff] at hmarker
      obtain ⟨marked, hmarked, ⟨word, after⟩, hword, h⟩ := hmarker
      obtain rfl := Option.some.inj h
      exact wholeAt_of_marked ((suffix_of_after? hrest).trans (suffix_of_trimStart _)) hmarked hword
    · cases hmarker

theorem suffix_of_wordsFrom : ∀ {offset : Nat} {text : Text} {word : Word},
    word ∈ wordsFrom offset text → word.after <:+ text
  | _, [], _, h => by simp [wordsFrom] at h
  | offset, c :: rest, word, h => by
    have ih : ∀ other ∈ wordsFrom (offset + 1) rest, other.after <:+ c :: rest :=
      fun _ hother => (suffix_of_wordsFrom hother).trans (List.suffix_cons c rest)
    unfold wordsFrom at h
    split_ifs at h
    · unfold consWord at h
      split at h
      · obtain rfl := List.mem_singleton.1 h
        exact List.suffix_cons c rest
      · rename_i first more hwords
        rw [hwords] at ih
        split_ifs at h
        · rcases List.mem_cons.1 h with rfl | h
          · exact ih first List.mem_cons_self
          · exact ih word (List.mem_cons_of_mem first h)
        · rcases List.mem_cons.1 h with rfl | h
          · exact List.suffix_cons c rest
          · exact ih word h
    · exact ih word h

theorem mem_markedReferences : ∀ {words : List Word} {r : Reference}, r ∈ markedReferences words →
    ∃ word ∈ words, word.markedReference? = some r
  | [], _, h => by simp [markedReferences] at h
  | [_], _, h => by simp [markedReferences] at h
  | word :: next :: rest, r, h => by
    unfold markedReferences at h
    split at h
    · rename_i reference hword
      rcases List.mem_cons.1 h with rfl | h
      · exact ⟨word, by simp, hword⟩
      · obtain ⟨other, hmem, hother⟩ := mem_markedReferences h
        exact ⟨other, by simp [hmem], hother⟩
    · obtain ⟨other, hmem, hother⟩ := mem_markedReferences h
      exact ⟨other, List.mem_cons_of_mem _ hmem, hother⟩

theorem wholeAt_of_markedReference? {text : Text} {word : Word} {r : Reference}
    (hword : word.after <:+ text) (h : word.markedReference? = some r) :
    ∃ p, WholeAt r.target text p := by
  simp only [Word.markedReference?, Option.bind_eq_bind, Option.bind_eq_some_iff] at h
  obtain ⟨transfer, -, h⟩ := h
  split_ifs at h
  · simp only [Option.bind_eq_some_iff] at h
    obtain ⟨marked, hmarked, ⟨target, after⟩, htarget, h⟩ := h
    obtain rfl := Option.some.inj h
    exact wholeAt_of_marked hword hmarked htarget
  · cases h

theorem wholeAt_of_commandReference? {text : Text} {word : Word} {r : Reference}
    (hword : word.after <:+ text) (h : word.commandReference? text = some r) :
    ∃ p, WholeAt r.target text p := by
  simp only [Word.commandReference?, Option.bind_eq_bind, Option.bind_eq_some_iff] at h
  obtain ⟨transfer, -, list, hlist, h⟩ := h
  split_ifs at h
  obtain ⟨target, htarget, h⟩ := Option.bind_eq_some_iff.1 h
  obtain rfl := Option.some.inj h
  obtain ⟨argument, hargument, hquoted⟩ := List.exists_of_findSome?_eq_some htarget
  have hsuffix : list <:+ text := (suffix_of_after? hlist).trans
    ((suffix_of_trimStart word.after).trans hword)
  exact wholeAt_of_quotedWord? ((infix_of_arguments hargument).trans hsuffix.isInfix) hquoted

theorem wholeAt_of_reference {line : Text} {r : Reference} (h : r ∈ references line) :
    ∃ p, WholeAt r.target (code line) p := by
  rw [references, List.mem_mergeSort, List.mem_append, List.mem_filterMap] at h
  rcases h with h | ⟨word, hmem, hword⟩
  · obtain ⟨word, hmem, hword⟩ := mem_markedReferences h
    exact wholeAt_of_markedReference? (suffix_of_wordsFrom hmem) hword
  · exact wholeAt_of_commandReference? (suffix_of_wordsFrom hmem) hword

/-! ## In front of the comment -/

/-- A word that stands whole on the code of a line stands whole on the line. -/
theorem WholeAt.of_code {word line : Text} {p : Nat} (h : WholeAt word (code line) p) :
    WholeAt word line p ∧ p ≤ (code line).length := by
  obtain ⟨front, after, hcode, rfl, hfree, hafter⟩ := h
  obtain ⟨comment, hline, hcomment⟩ := exists_comment line
  have hcomment : comment.head?.any isWord = false := by
    have hslash : isWord '/' = false := by decide
    rcases hcomment with rfl | ⟨more, rfl⟩
    · rfl
    · exact hslash
  have hpos : front.length ≤ (code line).length := by
    rw [hcode, List.length_append]
    exact Nat.le_add_right _ _
  refine ⟨⟨front, after ++ comment, ?_, rfl, hfree, ?_⟩, hpos⟩
  · rw [← List.append_assoc word, ← List.append_assoc front, ← hcode]
    exact hline
  · cases after with
    | nil => exact hcomment
    | cons c after => exact hafter

theorem whole_of_label {line word : Text} (h : label? line = some word) :
    ∃ p ≤ (code line).length, WholeAt word line p := by
  obtain ⟨p, hp⟩ := wholeAt_of_label? h
  exact ⟨p, hp.of_code.2, hp.of_code.1⟩

theorem whole_of_reference {line : Text} {r : Reference} (h : r ∈ references line) :
    ∃ p ≤ (code line).length, WholeAt r.target line p := by
  obtain ⟨p, hp⟩ := wholeAt_of_reference h
  exact ⟨p, hp.of_code.2, hp.of_code.1⟩

/-! ## Lines that mention a word -/

theorem startsWhole_iff {word text : Text} : startsWhole word text = true
    ↔ ∃ after, text = word ++ after ∧ after.head?.any isWord = false := by
  rw [startsWhole, Option.any_eq_true]
  refine exists_congr fun after => ?_
  rw [after?_eq_some_iff, Bool.not_eq_true']

theorem wholeAt_length_iff (word front text : Text) : WholeAt word (front ++ text) front.length
    ↔ freesStart front.getLast? = true ∧ startsWhole word text = true := by
  rw [startsWhole_iff]
  constructor
  · rintro ⟨other, after, hline, hlength, hfree, hafter⟩
    obtain ⟨rfl, rfl⟩ := List.append_inj hline.symm hlength
    exact ⟨hfree, after, rfl, hafter⟩
  · rintro ⟨hfree, after, rfl, hafter⟩
    exact ⟨front, after, rfl, rfl, hfree, hafter⟩

theorem WholeAt.le {word line : Text} {p : Nat} (h : WholeAt word line p) : p ≤ line.length := by
  obtain ⟨front, after, rfl, rfl, -⟩ := h
  rw [List.length_append]
  exact Nat.le_add_right _ _

theorem wholeAt_iff {word line : Text} {p : Nat} : WholeAt word line p ↔ p ≤ line.length
    ∧ freesStart (line.take p).getLast? = true ∧ startsWhole word (line.drop p) = true := by
  by_cases hp : p ≤ line.length
  · have h := wholeAt_length_iff word (line.take p) (line.drop p)
    rw [List.take_append_drop, List.length_take_of_le hp] at h
    rw [h, and_iff_right hp]
  · exact ⟨fun h => absurd h.le hp, fun h => absurd h.1 hp⟩

instance (word line : Text) (p : Nat) : Decidable (WholeAt word line p) :=
  decidable_of_iff _ wholeAt_iff.symm

theorem decide_wholeAt (word front text : Text) :
    decide (WholeAt word (front ++ text) front.length)
      = (freesStart front.getLast? && startsWhole word text) := by
  rw [Bool.eq_iff_iff, decide_eq_true_iff, wholeAt_length_iff, Bool.and_eq_true]

/-- The rest of a line is searched offset by offset. -/
theorem wholeWordFrom?_eq_find? (word : Text) : ∀ front text : Text,
    wholeWordFrom? word front.getLast? front.length text
      = (List.range' front.length (text.length + 1)).find? fun p =>
          decide (WholeAt word (front ++ text) p)
  | front, [] => by
    rw [wholeWordFrom?, List.range'_succ, List.find?_cons, decide_wholeAt]
    cases freesStart front.getLast? && startsWhole word [] <;> rfl
  | front, c :: rest => by
    have ih := wholeWordFrom?_eq_find? word (front ++ [c]) rest
    rw [List.getLast?_concat, List.length_append, List.length_singleton, List.append_assoc,
      List.singleton_append] at ih
    rw [List.range'_succ, List.find?_cons, decide_wholeAt, wholeWordFrom?, ih]
    cases freesStart front.getLast? && startsWhole word (c :: rest) <;> rfl

theorem wholeWord?_eq_find? (word line : Text) : wholeWord? word line
    = (List.range (line.length + 1)).find? fun p => decide (WholeAt word line p) := by
  rw [List.range_eq_range']
  exact wholeWordFrom?_eq_find? word [] line

/-- The first place where a word stands whole is found, if there is one. -/
theorem wholeWord?_eq_some {word line : Text} {p : Nat} (h : wholeWord? word line = some p) :
    WholeAt word line p ∧ ∀ q, WholeAt word line q → p ≤ q := by
  rw [wholeWord?_eq_find?, List.find?_range_eq_some] at h
  obtain ⟨hp, -, hfirst⟩ := h
  refine ⟨of_decide_eq_true hp, fun q hq => ?_⟩
  by_contra hlt
  have hnot := hfirst q (by omega)
  rw [decide_eq_true hq] at hnot
  cases hnot

theorem wholeWord?_eq_none {word line : Text} (h : wholeWord? word line = none) (p : Nat) :
    ¬ WholeAt word line p := by
  rw [wholeWord?_eq_find?, List.find?_range_eq_none] at h
  intro hp
  have hnot := h p (Nat.lt_succ_of_le hp.le)
  rw [decide_eq_true hp] at hnot
  cases hnot

theorem mentions_iff {word line : Text} : mentions word line = true
    ↔ ∃ p, WholeAt word line p ∧ ∀ k, commentMarker <+: line.drop k → p ≤ k := by
  unfold mentions
  rcases hword : wholeWord? word line with _ | first
  · refine ⟨fun h => (Bool.false_ne_true h).elim, fun ⟨p, hp, _⟩ => ?_⟩
    exact absurd hp (wholeWord?_eq_none hword p)
  · obtain ⟨hwhole, hfirst⟩ := wholeWord?_eq_some hword
    have hslashes := find?_any_lt commentMarker_ne_nil line first
    simp only [Bool.not_eq_true', ← Bool.not_eq_true, hslashes]
    constructor
    · intro h
      refine ⟨first, hwhole, fun k hk => ?_⟩
      by_contra hlt
      exact h ⟨k, by omega, hk⟩
    · rintro ⟨p, hp, hclear⟩ ⟨k, hlt, hk⟩
      have hle := hfirst p hp
      have hback := hclear k hk
      omega

/-- A word is hidden on a line by a literal with two slashes in front of every place where the word
stands whole. -/
def Hides (word line : Text) : Prop :=
  ∃ k, commentMarker <+: line.drop k ∧ opensLiteral (line.take k) = true
    ∧ ∀ p, WholeAt word line p → k < p

/-- A line with a word on its code mentions the word unless a literal hides it. -/
theorem mentions_iff_not_hides {word line : Text}
    (h : ∃ p ≤ (code line).length, WholeAt word line p) :
    mentions word line = true ↔ ¬ Hides word line := by
  rw [mentions_iff]
  constructor
  · rintro ⟨p, hp, hclear⟩ ⟨k, hk, -, hbehind⟩
    exact absurd (hclear k hk) (Nat.not_le_of_lt (hbehind p hp))
  · intro hshown
    obtain ⟨p, hcode, hp⟩ := h
    rcases hword : wholeWord? word line with _ | first
    · exact absurd hp (wholeWord?_eq_none hword p)
    · obtain ⟨hwhole, hfirst⟩ := wholeWord?_eq_some hword
      refine ⟨first, hwhole, fun k hk => ?_⟩
      by_contra hlt
      have hle := hfirst p hp
      have hliteral := opensLiteral_of_slashes hk (by omega)
      refine hshown ⟨k, hk, hliteral, fun q hq => ?_⟩
      have hle := hfirst q hq
      omega

end Script

end Dialogue
