import Dialogue.Encoding.Utf16
import Dialogue.Proofs.Utf8

/-!
# A text is read back from its code units

A character is written as one code unit or as a pair of surrogates, and a unit as two bytes in
either order (`encode`). Reading undoes both steps: bytes are those of code units
(`codeUnits?_eq_some_iff`), and code units those of characters (`chars?_eq_some_iff`). So bytes in a
known order are read as a text exactly if they are the ones of that text (`read_eq_some_iff`).
-/

namespace Dialogue.Utf16

/-- The code units that a character is written with: one, or a high and a low surrogate. -/
def charUnits (c : Char) : List Nat :=
  let n := c.toNat
  if n < 0x10000 then [n] else [0xD800 + (n - 0x10000) / 0x400, 0xDC00 + (n - 0x10000) % 0x400]

/-- The bytes of a code unit; `big` puts the high byte first. -/
def unitBytes (big : Bool) (unit : Nat) : Bytes :=
  if big then [.ofNat (unit / 256), .ofNat (unit % 256)]
  else [.ofNat (unit % 256), .ofNat (unit / 256)]

/-- The bytes that a text is written with, without a mark of their order. -/
def encode (big : Bool) (text : Text) : Bytes :=
  (text.flatMap charUnits).flatMap (unitBytes big)

theorem unitBytes_eq (big : Bool) {a b : UInt8} :
    unitBytes big (if big then 256 * a.toNat + b.toNat else 256 * b.toNat + a.toNat) = [a, b] := by
  have ha := a.toNat_lt
  have hb := b.toNat_lt
  cases big with
  | false =>
    have hlow : (256 * b.toNat + a.toNat) % 256 = a.toNat := by omega
    have hhigh : (256 * b.toNat + a.toNat) / 256 = b.toNat := by omega
    simp only [unitBytes, Bool.false_eq_true, if_false, hlow, hhigh, UInt8.ofNat_toNat]
  | true =>
    have hlow : (256 * a.toNat + b.toNat) % 256 = b.toNat := by omega
    have hhigh : (256 * a.toNat + b.toNat) / 256 = a.toNat := by omega
    simp only [unitBytes, if_true, hlow, hhigh, UInt8.ofNat_toNat]

theorem codeUnits?_unitBytes (big : Bool) {unit : Nat} (h : unit < 0x10000) (rest : Bytes) :
    codeUnits? big (unitBytes big unit ++ rest) = (codeUnits? big rest).map (unit :: ·) := by
  have hunit : 256 * (unit / 256) + unit % 256 = unit := by omega
  have hhigh := Utf8.toNat_ofNat (n := unit / 256) (by omega)
  have hlow := Utf8.toNat_ofNat (n := unit % 256) (by omega)
  cases big <;> simp [unitBytes, codeUnits?, hhigh, hlow, hunit]

/-- Bytes are those of code units exactly if they are the ones that these are written with. -/
theorem codeUnits?_eq_some_iff {big : Bool} {bytes : Bytes} {units : List Nat} :
    codeUnits? big bytes = some units
      ↔ bytes = units.flatMap (unitBytes big) ∧ ∀ unit ∈ units, unit < 0x10000 := by
  constructor
  · intro h
    fun_induction codeUnits? big bytes generalizing units with
    | case1 =>
      cases h
      exact ⟨rfl, by simp⟩
    | case2 b => cases h
    | case3 a b rest ih =>
      obtain ⟨more, hmore, rfl⟩ := Option.map_eq_some_iff.1 h
      obtain ⟨hrest, hbound⟩ := ih hmore
      have ha := a.toNat_lt
      have hb := b.toNat_lt
      refine ⟨by rw [List.flatMap_cons, unitBytes_eq, ← hrest]; rfl, ?_⟩
      refine List.forall_mem_cons.2 ⟨?_, hbound⟩
      split <;> omega
  · rintro ⟨rfl, hbound⟩
    induction units with
    | nil => rfl
    | cons unit units ih =>
      obtain ⟨hunit, hunits⟩ := List.forall_mem_cons.1 hbound
      rw [List.flatMap_cons, codeUnits?_unitBytes big hunit, ih hunits]
      rfl

theorem chars?_charUnits (c : Char) (rest : List Nat) :
    chars? (charUnits c ++ rest) = (chars? rest).map (c :: ·) := by
  have hbounds := Utf8.char_bounds c
  have hchar := Char.ofNat_toNat c
  simp only [charUnits]
  generalize c.toNat = n at hbounds hchar
  split_ifs with h
  · have hhigh : isHigh n = false := by simp [isHigh]; omega
    have hlow : isLow n = false := by simp [isLow]; omega
    rw [List.singleton_append, chars?.eq_def]
    simp only [hhigh, hlow, Bool.false_eq_true, if_false, hchar]
  · have hhigh : isHigh (0xD800 + (n - 0x10000) / 0x400) = true := by simp [isHigh]; omega
    have hlow : isLow (0xDC00 + (n - 0x10000) % 0x400) = true := by simp [isLow]; omega
    have hn : 0x10000 + (0xD800 + (n - 0x10000) / 0x400 - 0xD800) * 0x400
        + (0xDC00 + (n - 0x10000) % 0x400 - 0xDC00) = n := by omega
    rw [List.cons_append, List.singleton_append, chars?.eq_def]
    simp only [hhigh, hlow, if_true, hn, hchar]

theorem charUnits_pair {high low : Nat} (hhigh : isHigh high = true) (hlow : isLow low = true) :
    charUnits (Char.ofNat (0x10000 + (high - 0xD800) * 0x400 + (low - 0xDC00))) = [high, low] := by
  simp only [isHigh, isLow, Bool.and_eq_true, decide_eq_true_eq] at hhigh hlow
  have hfirst : 0xD800 + (0x10000 + (high - 0xD800) * 0x400 + (low - 0xDC00) - 0x10000) / 0x400
      = high := by omega
  have hsecond : 0xDC00 + (0x10000 + (high - 0xD800) * 0x400 + (low - 0xDC00) - 0x10000) % 0x400
      = low := by omega
  simp only [charUnits]
  rw [Utf8.toNat_ofNat_of_valid (by omega), if_neg (by omega), hfirst, hsecond]

theorem charUnits_single {unit : Nat} (hbound : unit < 0x10000) (hhigh : ¬ isHigh unit = true)
    (hlow : ¬ isLow unit = true) : charUnits (Char.ofNat unit) = [unit] := by
  simp only [isHigh, isLow, Bool.and_eq_true, decide_eq_true_eq] at hhigh hlow
  simp only [charUnits]
  rw [Utf8.toNat_ofNat_of_valid (by omega), if_pos hbound]

/-- The characters of code units are the ones that are written with them. -/
theorem chars?_eq_some_iff {units : List Nat} {text : Text} (h : ∀ unit ∈ units, unit < 0x10000) :
    chars? units = some text ↔ units = text.flatMap charUnits := by
  constructor
  · intro hread
    fun_induction chars? units generalizing text with
    | case1 =>
      cases hread
      rfl
    | case2 high hhigh low more hlow ih =>
      obtain ⟨rest, hrest, rfl⟩ := Option.map_eq_some_iff.1 hread
      have hmore := ih (fun unit hunit => h unit (by simp [hunit])) hrest
      rw [List.flatMap_cons, charUnits_pair hhigh hlow, ← hmore]
      rfl
    | case3 => cases hread
    | case4 => cases hread
    | case5 => cases hread
    | case6 unit more hhigh hlow ih =>
      obtain ⟨rest, hrest, rfl⟩ := Option.map_eq_some_iff.1 hread
      obtain ⟨hunit, hunits⟩ := List.forall_mem_cons.1 h
      rw [List.flatMap_cons, charUnits_single hunit hhigh hlow, ← ih hunits hrest]
      rfl
  · rintro rfl
    clear h
    induction text with
    | nil => rfl
    | cons c text ih =>
      rw [List.flatMap_cons, chars?_charUnits, ih]
      rfl

theorem lt_of_mem_charUnits {c : Char} {unit : Nat} (h : unit ∈ charUnits c) : unit < 0x10000 := by
  have hbounds := Utf8.char_bounds c
  simp only [charUnits] at h
  split_ifs at h
  · simp at h
    omega
  · simp at h
    omega

theorem length_le_units : ∀ text : Text, text.length ≤ (text.flatMap charUnits).length
  | [] => Nat.le_refl 0
  | c :: text => by
    have hunits : 1 ≤ (charUnits c).length := by
      simp only [charUnits]
      split_ifs <;> simp
    have ih := length_le_units text
    rw [List.flatMap_cons, List.length_append, List.length_cons]
    omega

/-- A unit has two bytes. -/
theorem length_encode (big : Bool) (text : Text) :
    (encode big text).length = 2 * (text.flatMap charUnits).length := by
  have hunit : ∀ unit, (unitBytes big unit).length = 2 := fun unit => by cases big <;> rfl
  rw [encode]
  induction text.flatMap charUnits with
  | nil => rfl
  | cons unit units ih =>
    rw [List.flatMap_cons, List.length_append, hunit, ih, List.length_cons]
    omega

/-- Bytes in a known order are read as a text exactly if they are the ones that it is written
with. -/
theorem read_eq_some_iff {big : Bool} {bytes : Bytes} {text : Text} :
    (codeUnits? big bytes).bind chars? = some text ↔ bytes = encode big text := by
  rw [Option.bind_eq_some_iff]
  constructor
  · rintro ⟨units, hunits, hchars⟩
    obtain ⟨rfl, hbound⟩ := codeUnits?_eq_some_iff.1 hunits
    rw [(chars?_eq_some_iff hbound).1 hchars]
    rfl
  · rintro rfl
    have hbound : ∀ unit ∈ text.flatMap charUnits, unit < 0x10000 := fun unit hunit => by
      obtain ⟨c, -, hc⟩ := List.mem_flatMap.1 hunit
      exact lt_of_mem_charUnits hc
    exact ⟨_, codeUnits?_eq_some_iff.2 ⟨rfl, hbound⟩, (chars?_eq_some_iff hbound).2 rfl⟩

end Dialogue.Utf16
