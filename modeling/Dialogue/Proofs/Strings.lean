import Dialogue.Json.Printer
import Dialogue.Proofs.Legible
import Dialogue.Proofs.Lines

/-!
# Strings in a file that is read by its lines

A string is written with all characters as they are but quotes, backslashes and control characters.
The next-line control and the line and paragraph separators are line ends too, and they are written
as they are: when the lines of the file are joined, a line feed stands in their place, and no string
holds one. So a string is read back if it has none of the three (`Unbroken`), and else it is refused
(`stringTail_writeString`).
-/

namespace Dialogue.Json

open Text (isLineEnd toNewline OneLine)

/-- No character of the string is a line end that is written as it is. -/
def Unbroken (s : Text) : Prop := ∀ c ∈ s, isLineEnd c = true → c.toNat < 32

instance (s : Text) : Decidable (Unbroken s) :=
  List.decidableBAll (fun c => isLineEnd c = true → c.toNat < 32) s

theorem hexDigit?_hexDigit : ∀ n < 16, hexDigit? (hexDigit n) = some n := by decide

theorem codeUnit?_unitEscape {n : Nat} (h : n < 65536) (rest : Text) :
    ∃ digits, unitEscape n = '\\' :: 'u' :: digits
      ∧ codeUnit? (digits ++ rest) = some (n, rest) := by
  refine ⟨_, rfl, ?_⟩
  have hvalue : ((n / 4096 % 16 * 16 + n / 256 % 16) * 16 + n / 16 % 16) * 16 + n % 16 = n := by
    omega
  simp only [List.cons_append, List.nil_append, codeUnit?,
    hexDigit?_hexDigit _ (Nat.mod_lt _ (by decide : 16 > 0)), Option.bind_eq_bind, Option.bind_some,
    hvalue]

/-- A control character is read back from its escape, whatever follows it. -/
theorem stringChar?_codeEscape {c : Char} (h : c.toNat < 32) (rest : Text) :
    stringChar? (codeEscape c ++ rest) = some (some c, rest) := by
  obtain ⟨digits, hescape, hunit⟩ := codeUnit?_unitEscape (by omega : c.toNat < 65536) rest
  have hchar : charOfUnit? c.toNat = some c := by
    rw [charOfUnit?, if_neg (by omega), Char.ofNat_toNat]
  rw [codeEscape, if_pos (by omega), hescape]
  change unicodeEscape? (digits ++ rest) = _
  unfold unicodeEscape?
  rw [hunit]
  simp only [hchar]
  split
  · split
    · rw [if_neg (by omega)]
    · rfl
  · rfl

theorem oneLine_codeEscape {c : Char} (h : c.toNat < 32) : OneLine (codeEscape c) := by
  have hall : ∀ n < 32, OneLine (unitEscape n) := by decide
  rw [codeEscape, if_pos (by omega)]
  exact hall _ h

/-- The characters that are escaped with one letter or sign. -/
def lettered : List Char := ['\x22', '\\', '\n', '\r', '\t', '\x0c', '\x08']

theorem writeChar_of_lettered : ∀ c ∈ lettered, ∃ d, writeChar .unicode c = ['\\', d]
    ∧ OneLine ['\\', d] ∧ ∀ rest, stringChar? ('\\' :: d :: rest) = some (some c, rest) := by
  simp only [lettered, List.forall_mem_cons]
  exact ⟨⟨'\x22', rfl, by decide, fun _ => rfl⟩, ⟨'\\', rfl, by decide, fun _ => rfl⟩,
    ⟨'n', rfl, by decide, fun _ => rfl⟩, ⟨'r', rfl, by decide, fun _ => rfl⟩,
    ⟨'t', rfl, by decide, fun _ => rfl⟩, ⟨'f', rfl, by decide, fun _ => rfl⟩,
    ⟨'b', rfl, by decide, fun _ => rfl⟩, by simp⟩

theorem writeChar_of_not_lettered {c : Char} (h : c ∉ lettered) :
    writeChar .unicode c = if c.toNat < 32 then codeEscape c else [c] := by
  simp only [lettered, List.mem_cons, List.not_mem_nil, or_false, not_or] at h
  obtain ⟨h1, h2, h3, h4, h5, h6, h7⟩ := h
  rw [writeChar, if_neg h1, if_neg h2, if_neg h3, if_neg h4, if_neg h5, if_neg h6, if_neg h7,
    if_neg fun hascii : Charset.unicode = .ascii ∧ _ => Charset.noConfusion hascii.1]

/-- A character that stands for itself in a string. -/
theorem stringChar?_self {c : Char} (hquote : c ≠ '\x22') (hslash : c ≠ '\\')
    (hc : ¬ c.toNat < 32) (rest : Text) : stringChar? (c :: rest) = some (some c, rest) := by
  unfold stringChar?
  split
  · exact absurd (List.cons.inj ‹_›).1 hslash
  · exact absurd (List.cons.inj ‹_›).1 hslash
  · exact absurd (List.cons.inj ‹_›).1 hslash
  · exact absurd (List.cons.inj ‹_›).1 hquote
  · rename_i heq
    obtain ⟨rfl, rfl⟩ := List.cons.inj heq
    exact if_neg hc
  · rename_i heq
    cases heq

/-- A character that is no line end or is escaped is read back. -/
theorem stringChar?_writeChar {c : Char} (h : isLineEnd c = true → c.toNat < 32) (rest : Text) :
    OneLine (writeChar .unicode c)
      ∧ stringChar? (writeChar .unicode c ++ rest) = some (some c, rest) := by
  by_cases hletter : c ∈ lettered
  · obtain ⟨d, hwrite, hone, hread⟩ := writeChar_of_lettered c hletter
    rw [hwrite]
    exact ⟨hone, hread rest⟩
  · rw [writeChar_of_not_lettered hletter]
    by_cases hc : c.toNat < 32
    · rw [if_pos hc]
      exact ⟨oneLine_codeEscape hc, stringChar?_codeEscape hc rest⟩
    · rw [if_neg hc]
      have hline : isLineEnd c = false := by
        by_contra hend
        exact hc (h (by simpa using hend))
      have hquote : c ≠ '\x22' := fun heq => hletter (heq ▸ by decide)
      have hslash : c ≠ '\\' := fun heq => hletter (heq ▸ by decide)
      exact ⟨by simpa [OneLine] using hline, stringChar?_self hquote hslash hc rest⟩

/-- A line end beyond the control characters is written as it is, and read as a line feed. -/
theorem writeChar_of_lineEnd {c : Char} (h : isLineEnd c = true) (hc : ¬ c.toNat < 32) :
    (writeChar .unicode c).map toNewline = ['\n'] := by
  have hescaped : lettered.all (fun d => !isLineEnd d || decide (d.toNat < 32)) = true := by decide
  have hletter : c ∉ lettered := fun hmem => by
    simpa [h, hc] using List.all_eq_true.1 hescaped c hmem
  rw [writeChar_of_not_lettered hletter, if_neg hc]
  simp [toNewline, h]

theorem unbroken_cons {c : Char} {s : Text} :
    Unbroken (c :: s) ↔ (isLineEnd c = true → c.toNat < 32) ∧ Unbroken s :=
  List.forall_mem_cons

theorem stringTail_of_stringChar? {fuel : Nat} {c : Char} {text rest : Text}
    (h : stringChar? text = some (some c, rest)) :
    stringTail (fuel + 1) text = (stringTail fuel rest).map fun (s, tail) => (c :: s, tail) := by
  rw [stringTail.eq_def]
  simp only [h]

theorem stringTail_writeString {rest : Text} : ∀ {s : Text} {fuel : Nat}, s.length < fuel →
    stringTail fuel ((s.flatMap (writeChar .unicode) ++ ['\x22']).map toNewline ++ rest)
      = if Unbroken s then .ok (s, rest) else .error .malformed
  | [], fuel + 1, _ => by
    rw [if_pos (by simp [Unbroken])]
    rfl
  | c :: s, fuel + 1, hfuel => by
    have hs : s.length < fuel := Nat.lt_of_succ_lt_succ hfuel
    rw [List.flatMap_cons, List.append_assoc, List.map_append, List.append_assoc]
    by_cases hc : isLineEnd c = true → c.toNat < 32
    · obtain ⟨hone, hread⟩ := stringChar?_writeChar hc
        ((s.flatMap (writeChar .unicode) ++ ['\x22']).map toNewline ++ rest)
      rw [Text.map_toNewline_of_oneLine hone, stringTail_of_stringChar? hread,
        stringTail_writeString hs]
      by_cases h : Unbroken s
      · rw [if_pos h, if_pos (unbroken_cons.2 ⟨hc, h⟩)]
        rfl
      · rw [if_neg h, if_neg fun hall => h (unbroken_cons.1 hall).2]
        rfl
    · have hbroken : ¬ Unbroken (c :: s) := fun h => hc (unbroken_cons.1 h).1
      rw [writeChar_of_lineEnd (by tauto) (by tauto), if_neg hbroken]
      rfl

end Dialogue.Json
