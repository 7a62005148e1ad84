import Dialogue.Proofs.Blanks
import Dialogue.Proofs.Lines
import Dialogue.Text.Integer
import Mathlib.Algebra.Group.Nat.Defs
import Mathlib.Data.List.TakeWhile

/-!
# Runs of digits and the integers they write

An integer is read back from its decimal digits unless they are too many (`leadingInt?_ofInt`), and
none are too many in a text whose runs of digits are short (`ShortRuns`).
-/

namespace Dialogue.Text

section Runs

variable {text : Text} {p : Char → Bool} {c : Char}

theorem takeWhile_append_stop (hc : p c = false) (rest : Text) :
    (text ++ c :: rest).takeWhile p = text.takeWhile p := by
  induction text with
  | nil => simp [hc]
  | cons d text ih => simp only [List.cons_append, List.takeWhile_cons, ih]

theorem dropWhile_append_stop (hc : p c = false) (rest : Text) :
    (text ++ c :: rest).dropWhile p = text.dropWhile p ++ c :: rest := by
  induction text with
  | nil => simp [hc]
  | cons d text ih =>
    simp only [List.cons_append, List.dropWhile_cons, ih]
    split <;> rfl

end Runs

theorem isDecimal_of_isBlank {c : Char} (h : isBlank c = true) : isDecimal c = false := by
  have hall : ∀ n ∈ blankPoints, isDecimal (Char.ofNat n) = false := by decide +kernel
  have hc := hall c.toNat (mem_blankPoints h)
  rwa [Char.ofNat_toNat] at hc

/-- No run of digits in the text is longer than those that are read. -/
def ShortRuns (text : Text) : Prop :=
  ∀ run : Text, run <:+: text → (∀ c ∈ run, isDecimal c = true) → run.length ≤ maxDigits

theorem ShortRuns.of_isInfix {part text : Text} (h : ShortRuns text) (hp : part <:+: text) :
    ShortRuns part :=
  fun run hrun => h run (hrun.trans hp)

/-- Only the run at the start of a text and those after its first character count. -/
theorem shortRuns_cons {c : Char} {text : Text} : ShortRuns (c :: text)
    ↔ ((c :: text).takeWhile isDecimal).length ≤ maxDigits ∧ ShortRuns text := by
  constructor
  · intro h
    exact ⟨h _ (List.takeWhile_prefix _).isInfix fun d hd => List.mem_takeWhile_imp hd,
      h.of_isInfix (List.suffix_cons c text).isInfix⟩
  · rintro ⟨hstart, htext⟩ run hrun hdec
    rcases List.infix_cons_iff.1 hrun with hp | hi
    · obtain ⟨rest, hrest⟩ := hp
      rw [← hrest, List.takeWhile_append_of_pos hdec, List.length_append] at hstart
      omega
    · exact htext run hi hdec

theorem shortRuns_of_length {text : Text} (h : text.length ≤ maxDigits) : ShortRuns text :=
  fun _ hrun _ => hrun.length_le.trans h

/-- A text whose first character is no digit starts with no run. -/
theorem shortRuns_cons_of_not {c : Char} (hc : isDecimal c = false) {text : Text} :
    ShortRuns (c :: text) ↔ ShortRuns text := by
  rw [shortRuns_cons, List.takeWhile_cons_of_neg (by simp [hc])]
  simp

theorem readDigits_of_shortRuns {digits : Text} (hdec : ∀ c ∈ digits, isDecimal c = true)
    (h : ShortRuns digits) : readDigits digits = .ok (digitsValue digits) := by
  rw [readDigits, if_pos (h digits (List.infix_refl _) hdec)]

theorem digit?_of_isDigit {c : Char} (h : c.isDigit = true) : digit? c = some (c.toNat - 48) := by
  rw [digit?, if_pos h]

theorem isDigit_of_mem_ofNat {n : Nat} {c : Char} (h : c ∈ ofNat n) : c.isDigit = true :=
  Nat.isDigit_of_mem_toDigits (by decide) (by decide) h

theorem isDecimal_of_mem_ofNat {n : Nat} {c : Char} (h : c ∈ ofNat n) : isDecimal c = true := by
  rw [isDecimal, digit?_of_isDigit (isDigit_of_mem_ofNat h)]
  rfl

theorem digitsValue_ofNat (n : Nat) : digitsValue (ofNat n) = n := by
  have hfold : ∀ (digits : Text) (m : Nat), (∀ c ∈ digits, c.isDigit = true) →
      digits.foldl (fun n c => 10 * n + (digit? c).getD 0) m = Nat.ofDigitChars 10 digits m := by
    intro digits
    induction digits with
    | nil => exact fun _ _ => rfl
    | cons c digits ih =>
      intro m h
      rw [List.foldl_cons, digit?_of_isDigit (h c (by simp)), Option.getD_some,
        ih _ fun d hd => h d (by simp [hd]), Nat.ofDigitChars_cons]
      rfl
  rw [digitsValue, hfold _ 0 fun c hc => isDigit_of_mem_ofNat hc]
  exact Nat.ofDigitChars_ten_toDigits

theorem digit?_lt {c : Char} {d : Nat} (h : digit? c = some d) : d < 10 := by
  unfold digit? at h
  split at h
  · rename_i hc
    simp only [Char.isDigit, Bool.and_eq_true, decide_eq_true_eq] at hc
    have h2 : c.toNat ≤ 57 := hc.2
    simp only [Option.some.injEq] at h
    omega
  · split at h
    · cases h
    · obtain ⟨z, hz, rfl⟩ := Option.map_eq_some_iff.1 h
      have hrange := List.find?_some hz
      simp only [Bool.and_eq_true, decide_eq_true_eq] at hrange
      omega

theorem digitsValue_lt (digits : Text) : digitsValue digits < 10 ^ digits.length := by
  have hfold : ∀ (digits : Text) (m : Nat),
      digits.foldl (fun n c => 10 * n + (digit? c).getD 0) m < (m + 1) * 10 ^ digits.length := by
    intro digits
    induction digits with
    | nil => intro m; simp
    | cons c digits ih =>
      intro m
      have hd : (digit? c).getD 0 < 10 := by
        rcases hc : digit? c with _ | d
        · simp
        · exact digit?_lt hc
      rw [List.foldl_cons, List.length_cons, Nat.pow_succ']
      calc _ < (10 * m + (digit? c).getD 0 + 1) * 10 ^ digits.length := ih _
        _ ≤ (10 * (m + 1)) * 10 ^ digits.length := Nat.mul_le_mul_right _ (by omega)
        _ = (m + 1) * (10 * 10 ^ digits.length) := by rw [Nat.mul_comm 10, Nat.mul_assoc]
  simpa [digitsValue] using hfold digits 0

/-- A number has no more digits than it was written with. -/
theorem length_ofNat_digitsValue {digits : Text} (h : digits ≠ []) :
    (ofNat (digitsValue digits)).length ≤ digits.length := by
  rw [ofNat, Nat.length_toDigits_le_iff (by decide) (List.length_pos_iff.2 h)]
  exact digitsValue_lt digits

theorem isBlank_of_isDigit {c : Char} (h : c.isDigit = true) : isBlank c = false := by
  simp only [Char.isDigit, Bool.and_eq_true, decide_eq_true_eq] at h
  have h1 : 48 ≤ c.toNat := h.1
  have h2 : c.toNat ≤ 57 := h.2
  simp only [isBlank]
  simp
  omega

theorem ofNat_eq_cons (n : Nat) : ∃ c rest, ofNat n = c :: rest ∧ c ≠ '+' ∧ c ≠ '-' := by
  rcases hn : ofNat n with _ | ⟨c, rest⟩
  · exact absurd hn Nat.toDigits_ne_nil
  · have hc : c.isDigit = true := isDigit_of_mem_ofNat (n := n) (by simp [hn])
    refine ⟨c, rest, rfl, ?_, ?_⟩
    · rintro rfl
      exact absurd hc (by decide)
    · rintro rfl
      exact absurd hc (by decide)

theorem isBlank_of_mem_ofInt : ∀ {n : Int} {c : Char}, c ∈ ofInt n → isBlank c = false
  | .ofNat n, c, h => isBlank_of_isDigit (isDigit_of_mem_ofNat (n := n) h)
  | .negSucc n, c, h => by
    rcases List.mem_cons.1 h with rfl | h
    · decide
    · exact isBlank_of_isDigit (isDigit_of_mem_ofNat h)

theorem oneLine_ofInt (n : Int) : OneLine (ofInt n) :=
  oneLine_of_not_blank fun _ => isBlank_of_mem_ofInt

theorem trimStart_ofInt (n : Int) : trimStart (ofInt n) = ofInt n :=
  trimStart_of_forall fun _ => isBlank_of_mem_ofInt

theorem trim_ofInt (n : Int) : trim (ofInt n) = ofInt n :=
  trim_of_forall fun _ => isBlank_of_mem_ofInt

theorem takeSign_ofNat (n : Nat) : takeSign (ofNat n) = (false, ofNat n) := by
  obtain ⟨c, rest, hn, hplus, hminus⟩ := ofNat_eq_cons n
  rw [hn]
  unfold takeSign
  split
  · rename_i heq
    exact absurd (List.cons.inj heq).1 hplus
  · rename_i heq
    exact absurd (List.cons.inj heq).1 hminus
  · rfl

theorem takeSign_ofInt : ∀ n : Int, takeSign (ofInt n) = (decide (n < 0), ofNat n.natAbs)
  | .ofNat n => by
    simp only [ofInt, takeSign_ofNat]
    simp
  | .negSucc n => by
    simp only [ofInt, takeSign, Int.negSucc_lt_zero, decide_true, Int.natAbs_negSucc]

/-- The digits that are read of a scalar. -/
def leadingDigits (text : Text) : Text := (takeSign (trimStart text)).2.takeWhile isDecimal

theorem infix_of_leadingDigits (text : Text) : leadingDigits text <:+: text := by
  have hsign : (takeSign (trimStart text)).2 <:+ trimStart text := by
    unfold takeSign
    split
    · rename_i h
      exact h ▸ List.suffix_cons _ _
    · rename_i h
      exact h ▸ List.suffix_cons _ _
    · exact List.suffix_rfl
  exact (List.takeWhile_prefix _).isInfix.trans
    (hsign.trans (List.dropWhile_suffix _)).isInfix

theorem leadingInt?_eq (text : Text) : leadingInt? text
    = if (leadingDigits text).isEmpty then .ok none
      else (readDigits (leadingDigits text)).map fun n =>
        some (if (takeSign (trimStart text)).1 then -(n : Int) else n) := rfl

/-- A scalar is refused for the length of its digits alone. -/
theorem leadingInt?_eq_error_iff {text : Text} {e : OverlongInteger} :
    leadingInt? text = .error e
      ↔ maxDigits < (leadingDigits text).length ∧ e = ⟨(leadingDigits text).length⟩ := by
  rw [leadingInt?_eq, readDigits]
  by_cases hlong : (leadingDigits text).length ≤ maxDigits
  · rw [if_pos hlong]
    refine iff_of_false ?_ (by omega)
    split_ifs <;> simp [Except.map]
  · have hne : (leadingDigits text).isEmpty = false := by
      cases h : leadingDigits text with
      | nil => simp [h] at hlong
      | cons => rfl
    rw [if_neg hlong, hne]
    simp [Except.map, eq_comm, Nat.lt_of_not_le hlong]

theorem leadingInt?_ofInt (n : Int) (h : ShortRuns (ofInt n)) :
    leadingInt? (ofInt n) = .ok (some n) := by
  have hdec : ∀ c ∈ ofNat n.natAbs, isDecimal c = true := fun c => isDecimal_of_mem_ofNat
  have htake : (ofNat n.natAbs).takeWhile isDecimal = ofNat n.natAbs :=
    List.takeWhile_eq_self_iff.2 hdec
  have hne : (ofNat n.natAbs).isEmpty = false := by
    obtain ⟨c, rest, hn, -⟩ := ofNat_eq_cons n.natAbs
    rw [hn]
    rfl
  have hshort : ShortRuns (ofNat n.natAbs) := by
    rcases n with n | n
    · exact h
    · exact (shortRuns_cons_of_not (by decide)).1 h
  have hsign : (if decide (n < 0) = true then -(n.natAbs : Int) else n.natAbs) = n := by
    simp only [decide_eq_true_eq]
    split <;> omega
  simp only [leadingInt?, trimStart_ofInt, takeSign_ofInt, htake, hne,
    readDigits_of_shortRuns hdec hshort, digitsValue_ofNat, Except.map]
  change Except.ok (some (if decide (n < 0) = true then -(n.natAbs : Int) else n.natAbs)) = _
  rw [hsign]

/-- An integer that can be read at all is read back from its digits. -/
theorem leadingInt?_ofInt_of_ok {n : Int} {read : Option Int}
    (h : leadingInt? (ofInt n) = .ok read) : leadingInt? (ofInt n) = .ok (some n) := by
  have hdigits : leadingDigits (ofInt n) = ofNat n.natAbs := by
    rw [leadingDigits, trimStart_ofInt, takeSign_ofInt]
    exact List.takeWhile_eq_self_iff.2 fun c => isDecimal_of_mem_ofNat
  have hlength : (ofNat n.natAbs).length ≤ maxDigits := by
    by_contra hlong
    have herror := leadingInt?_eq_error_iff.2 ⟨Nat.lt_of_not_le (hdigits ▸ hlong), rfl⟩
    rw [herror] at h
    cases h
  refine leadingInt?_ofInt n ?_
  rcases n with n | n
  · exact shortRuns_of_length hlength
  · exact (shortRuns_cons_of_not (by decide)).2 (shortRuns_of_length hlength)

theorem leadingInt?_of_shortRuns {text : Text} (h : ShortRuns text) :
    ∃ read, leadingInt? text = .ok read := by
  rcases hread : leadingInt? text with e | read
  · have hlong := (leadingInt?_eq_error_iff.1 hread).1
    have hshort := h _ (infix_of_leadingDigits text) fun c hc => List.mem_takeWhile_imp hc
    omega
  · exact ⟨read, rfl⟩

/-- An integer that was read has no more digits than can be read. -/
theorem length_of_leadingInt? {text : Text} {n : Int} (h : leadingInt? text = .ok (some n)) :
    (ofNat n.natAbs).length ≤ maxDigits := by
  rw [leadingInt?_eq, readDigits] at h
  by_cases hempty : (leadingDigits text).isEmpty = true
  · rw [if_pos hempty] at h
    cases h
  by_cases hlong : (leadingDigits text).length ≤ maxDigits
  · rw [if_neg hempty, if_pos hlong] at h
    have habs : n.natAbs = digitsValue (leadingDigits text) := by
      rw [← Option.some.inj (Except.ok.inj h)]
      split_ifs <;> simp
    rw [habs]
    exact (length_ofNat_digitsValue (by simpa using hempty)).trans hlong
  · rw [if_neg hempty, if_neg hlong] at h
    cases h

end Dialogue.Text
