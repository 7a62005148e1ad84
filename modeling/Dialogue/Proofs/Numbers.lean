import Dialogue.Json.Parser
import Dialogue.Proofs.Rounding

/-!
# Numbers are read back as they were written

A number is an integral part with or without a fraction and an exponent (`number_int`,
`number_double`). The digits of a floating-point number are laid out in one of four ways, and each
of them writes the same decimal (`number_layout`), so the number that is read is the one that was
written (`number_write`).
-/

namespace Dialogue

namespace Text

theorem digitsValue_append (first second : Text) :
    digitsValue (first ++ second) = digitsValue first * 10 ^ second.length + digitsValue second := by
  have hfold : ∀ (digits : Text) (m : Nat),
      digits.foldl (fun n c => 10 * n + (digit? c).getD 0) m
        = m * 10 ^ digits.length + digitsValue digits := by
    intro digits
    induction digits using List.reverseRecOn with
    | nil => intro m; simp [digitsValue]
    | append_singleton digits c ih =>
      intro m
      simp only [digitsValue, List.foldl_append, List.foldl_cons, List.foldl_nil, ih m,
        List.length_append, List.length_singleton, Nat.pow_succ]
      ring
  rw [digitsValue, List.foldl_append, hfold]
  rfl

theorem digitsValue_zeros (k : Nat) : digitsValue (List.replicate k '0') = 0 := by
  induction k with
  | zero => rfl
  | succ k ih =>
    rw [List.replicate_succ', digitsValue_append, ih]
    rfl

/-- No digit of a number stands for nothing at its start. -/
theorem head_ofNat_ne_zero {n : Nat} (hn : 0 < n) : (ofNat n).head? ≠ some '0' := by
  intro hhead
  obtain ⟨rest, hrest⟩ := List.head?_eq_some_iff.1 hhead
  obtain ⟨-, hle, -⟩ := Json.Double.ofNat_length_bounds hn
  have hvalue : digitsValue rest = n := by
    have h := digitsValue_ofNat n
    rw [hrest, ← List.singleton_append, digitsValue_append] at h
    simpa [digitsValue, digit?] using h
  have hlt := digitsValue_lt rest
  rw [hrest, List.length_cons, Nat.add_sub_cancel] at hle
  omega

end Text

namespace Json

open Text (digitsValue digitsValue_append digitsValue_zeros)

/-- Digits of the ASCII range alone. -/
def Digits (digits : Text) : Prop := ∀ c ∈ digits, c.isDigit = true

/-- No digit stands at the start of the text. -/
def NoDigit (rest : Text) : Prop := ∀ c ∈ rest.head?, c.isDigit = false

/-- A number that stands in front of the text ends there. -/
def NumberEnd (rest : Text) : Prop :=
  ∀ c ∈ rest.head?, c.isDigit = false ∧ c ≠ '.' ∧ c ≠ 'e' ∧ c ≠ 'E'

theorem NumberEnd.noDigit {rest : Text} (h : NumberEnd rest) : NoDigit rest :=
  fun c hc => (h c hc).1

/-- A run of digits that does not start with a zero. -/
structure Significant (digits : Text) : Prop where
  ne_nil : digits ≠ []
  head_ne : digits.head? ≠ some '0'
  all : Digits digits

/-- Digits of an integral part: a lone zero, or a run that starts with another digit. -/
def Integral (digits : Text) : Prop := digits = ['0'] ∨ Significant digits

theorem digits_zeros (k : Nat) : Digits (List.replicate k '0') := by
  intro c hc
  rw [(List.mem_replicate.1 hc).2]
  rfl

theorem Integral.digits {digits : Text} (h : Integral digits) : Digits digits := by
  rcases h with rfl | h
  · exact digits_zeros 1
  · exact h.all

theorem Integral.ne_nil {digits : Text} (h : Integral digits) : digits ≠ [] := by
  rcases h with rfl | h
  · simp
  · exact h.ne_nil

theorem integral_ofNat (n : Nat) : Integral (Text.ofNat n) := by
  rcases Nat.eq_zero_or_pos n with rfl | hn
  · exact .inl rfl
  · exact .inr ⟨Nat.toDigits_ne_nil, Text.head_ofNat_ne_zero hn, fun c => Text.isDigit_of_mem_ofNat⟩

theorem spanDigits_append {digits rest : Text} (h : Digits digits) (hrest : NoDigit rest) :
    spanDigits (digits ++ rest) = (digits, rest) := by
  have hstop : rest.takeWhile Char.isDigit = [] ∧ rest.dropWhile Char.isDigit = rest := by
    rcases rest with _ | ⟨c, rest⟩
    · simp
    · simp [hrest c (by simp)]
  rw [spanDigits, List.takeWhile_append_of_pos h, List.dropWhile_append_of_pos h, hstop.1, hstop.2,
    List.append_nil]

theorem integral?_append {digits rest : Text} (h : Integral digits) (hrest : NoDigit rest) :
    integral? (digits ++ rest) = some (digits, rest) := by
  rcases h with rfl | h
  · rfl
  · obtain ⟨c, digits, rfl⟩ := List.exists_cons_of_ne_nil h.ne_nil
    have hc : c ≠ '0' := fun hzero => h.head_ne (by simp [hzero])
    unfold integral?
    split
    · rename_i heq
      exact absurd (List.cons.inj heq).1 hc
    · rw [spanDigits_append h.all hrest]
      simp

theorem fraction?_append {places rest : Text} (hne : places ≠ []) (h : Digits places)
    (hrest : NoDigit rest) : fraction? ('.' :: (places ++ rest)) = some (places, rest) := by
  simp [fraction?, spanDigits_append h hrest, hne]

theorem fraction?_eq_none {rest : Text} (h : ∀ c ∈ rest.head?, c ≠ '.') :
    fraction? rest = none := by
  unfold fraction?
  split
  · exact absurd rfl (h '.' (by simp))
  · rfl

theorem exponent?_eq_none {rest : Text} (h : ∀ c ∈ rest.head?, c ≠ 'e' ∧ c ≠ 'E') :
    exponent? rest = none := by
  rcases rest with _ | ⟨c, rest⟩
  · rfl
  · have := h c (by simp)
    simp [exponent?, this.1, this.2]

/-- The minus sign of a number, if it is negative. -/
def minus (negative : Bool) : Text := if negative then ['-'] else []

/-- The number with an integral part, of which the rest of the text may hold fraction and
exponent. -/
def afterIntegral (negative : Bool) (digits rest : Text) : Read Json :=
  match fraction? rest, exponent? rest with
  | none, none =>
    match Text.readDigits digits with
    | .error e => .error (.overlong e)
    | .ok n => .ok (.int (if negative then -(n : Int) else n), rest)
  | none, some (power, tail) =>
    .ok (.double (.ofDecimal negative (digitsValue digits) power), tail)
  | some (places, rest), _ =>
    let value := digitsValue (digits ++ places)
    match exponent? rest with
    | none => .ok (.double (.ofDecimal negative value (-(places.length : Int))), rest)
    | some (power, tail) =>
      .ok (.double (.ofDecimal negative value (power - places.length)), tail)

theorem number_append (negative : Bool) {digits rest : Text} (h : Integral digits)
    (hrest : NoDigit rest) :
    number (minus negative ++ (digits ++ rest)) = afterIntegral negative digits rest := by
  cases negative with
  | true =>
    change number ('-' :: (digits ++ rest)) = _
    rw [number, integral?_append h hrest]
    rfl
  | false =>
    change number (digits ++ rest) = _
    rw [number, integral?_append h hrest]
    · rfl
    · intro tail heq
      obtain ⟨c, digits, rfl⟩ := List.exists_cons_of_ne_nil h.ne_nil
      have hc : ('-').isDigit = true := (List.cons.inj heq).1 ▸ h.digits c (by simp)
      exact absurd hc (by decide)

theorem number_int (negative : Bool) {digits rest : Text} (h : Integral digits)
    (hlong : digits.length ≤ Text.maxDigits) (hrest : NumberEnd rest) :
    number (minus negative ++ (digits ++ rest))
      = .ok (.int (if negative then -(digitsValue digits : Int) else digitsValue digits), rest) := by
  rw [number_append negative h hrest.noDigit, afterIntegral,
    fraction?_eq_none fun c hc => (hrest c hc).2.1, exponent?_eq_none fun c hc => (hrest c hc).2.2]
  simp only [Text.readDigits, if_pos hlong]

theorem afterIntegral_fraction (negative : Bool) (digits : Text) {places rest : Text}
    (hne : places ≠ []) (hplaces : Digits places) (hrest : NumberEnd rest) :
    afterIntegral negative digits ('.' :: (places ++ rest))
      = .ok (.double (.ofDecimal negative (digitsValue (digits ++ places))
        (-(places.length : Int))), rest) := by
  simp only [afterIntegral, fraction?_append hne hplaces hrest.noDigit,
    exponent?_eq_none fun c hc => (hrest c hc).2.2]

theorem noDigit_point (text : Text) : NoDigit ('.' :: text) := by
  intro c hc
  obtain rfl := Option.some.inj hc
  rfl

theorem number_fraction (negative : Bool) {digits places rest : Text} (hdigits : Integral digits)
    (hne : places ≠ []) (hplaces : Digits places) (hrest : NumberEnd rest) :
    number (minus negative ++ (digits ++ ('.' :: (places ++ rest))))
      = .ok (.double (.ofDecimal negative (digitsValue (digits ++ places))
        (-(places.length : Int))), rest) := by
  rw [number_append negative hdigits (noDigit_point _),
    afterIntegral_fraction negative digits hne hplaces hrest]

/-- The letter, the sign and the digits of an exponent. -/
def writePower (power : Int) : Text :=
  let size := Text.ofNat power.natAbs
  (if power < 0 then "e-" else "e+") ++ (if size.length < 2 then '0' :: size else size)

theorem layout_of_power (digits : Text) {point : Int} (h : ¬ (-4 < point ∧ point ≤ 16)) :
    Double.layout digits point = digits.take 1
      ++ ((if digits.length = 1 then [] else '.' :: digits.drop 1) ++ writePower (point - 1)) := by
  simp [Double.layout, h, writePower]

theorem exponent?_writePower (power : Int) {rest : Text} (hrest : NoDigit rest) :
    exponent? (writePower power ++ rest) = some (power, rest) := by
  obtain ⟨digits, hdigits, hvalue, hne, hwrite⟩ : ∃ digits, Digits digits
      ∧ digitsValue digits = power.natAbs ∧ digits ≠ []
      ∧ writePower power = (if power < 0 then "e-" else "e+") ++ digits := by
    have hsize : Digits (Text.ofNat power.natAbs) := fun c => Text.isDigit_of_mem_ofNat
    by_cases hshort : (Text.ofNat power.natAbs).length < 2
    · refine ⟨'0' :: Text.ofNat power.natAbs, ?_, ?_, by simp, by simp [writePower, hshort]⟩
      · intro c hc
        rcases List.mem_cons.1 hc with rfl | hc
        · rfl
        · exact hsize c hc
      · exact Text.digitsValue_ofNat _
    · exact ⟨_, hsize, Text.digitsValue_ofNat _, Nat.toDigits_ne_nil, by simp [writePower, hshort]⟩
  by_cases hneg : power < 0
  · simp [hwrite, hneg, exponent?, Text.takeSign, spanDigits_append hdigits hrest, hne, hvalue,
      abs_of_neg]
  · simp [hwrite, hneg, exponent?, Text.takeSign, spanDigits_append hdigits hrest, hne, hvalue,
      abs_of_nonneg (Int.not_lt.1 hneg)]

theorem head?_writePower (power : Int) (rest : Text) :
    (writePower power ++ rest).head? = some 'e' := by
  unfold writePower
  split <;> rfl

theorem noDigit_writePower (power : Int) (rest : Text) : NoDigit (writePower power ++ rest) := by
  intro c hc
  rw [head?_writePower] at hc
  obtain rfl := Option.some.inj hc
  rfl

theorem afterIntegral_power (negative : Bool) (digits : Text) (power : Int) {rest : Text}
    (hrest : NoDigit rest) :
    afterIntegral negative digits (writePower power ++ rest)
      = .ok (.double (.ofDecimal negative (digitsValue digits) power), rest) := by
  have hpoint : ∀ c ∈ (writePower power ++ rest).head?, c ≠ '.' := by
    rw [head?_writePower]
    simp
  simp only [afterIntegral, fraction?_eq_none hpoint, exponent?_writePower power hrest]

theorem afterIntegral_fraction_power (negative : Bool) (digits : Text) {places rest : Text}
    (hne : places ≠ []) (hplaces : Digits places) (power : Int) (hrest : NoDigit rest) :
    afterIntegral negative digits ('.' :: (places ++ (writePower power ++ rest)))
      = .ok (.double (.ofDecimal negative (digitsValue (digits ++ places))
        (power - places.length)), rest) := by
  simp only [afterIntegral, fraction?_append hne hplaces (noDigit_writePower power rest),
    exponent?_writePower power hrest]

section Layouts

variable {digits rest : Text}

/-- The point in front of all digits. -/
theorem number_front (negative : Bool) (h : Significant digits) (hrest : NumberEnd rest) (k : Nat) :
    number (minus negative ++ (("0." : Text) ++ List.replicate k '0' ++ digits ++ rest))
      = .ok (.double (.ofDecimal negative (digitsValue digits) (-(k + digits.length : Nat))),
        rest) := by
  have hplaces : Digits (List.replicate k '0' ++ digits) := fun c hc =>
    (List.mem_append.1 hc).elim (digits_zeros k c) (h.all c)
  have hvalue : digitsValue (['0'] ++ (List.replicate k '0' ++ digits)) = digitsValue digits := by
    rw [digitsValue_append, digitsValue_append, digitsValue_zeros]
    simp [digitsValue, Text.digit?]
  have htext : ("0." : Text) ++ List.replicate k '0' ++ digits ++ rest
      = ['0'] ++ ('.' :: ((List.replicate k '0' ++ digits) ++ rest)) := by simp
  rw [htext, number_fraction negative (.inl rfl) (by simp [h.ne_nil]) hplaces hrest, hvalue,
    List.length_append, List.length_replicate]

/-- The point behind all digits. -/
theorem number_behind (negative : Bool) (h : Significant digits) (hpos : 0 < digitsValue digits)
    (hrest : NumberEnd rest) (k : Nat) :
    number (minus negative ++ (digits ++ List.replicate k '0' ++ (".0" : Text) ++ rest))
      = .ok (.double (.ofDecimal negative (digitsValue digits) k), rest) := by
  have hintegral : Integral (digits ++ List.replicate k '0') := by
    refine .inr ⟨by simp [h.ne_nil], ?_, fun c hc =>
      (List.mem_append.1 hc).elim (h.all c) (digits_zeros k c)⟩
    rw [List.head?_append_of_ne_nil _ h.ne_nil]
    exact h.head_ne
  have hvalue : digitsValue (digits ++ List.replicate k '0' ++ ['0'])
      = digitsValue digits * 10 ^ (k + 1) := by
    rw [digitsValue_append, digitsValue_append, digitsValue_zeros, List.length_replicate]
    simp [digitsValue, Text.digit?, Nat.pow_succ, Nat.mul_assoc]
  have htext : digits ++ List.replicate k '0' ++ (".0" : Text) ++ rest
      = digits ++ List.replicate k '0' ++ ('.' :: (['0'] ++ rest)) := by simp
  have hzero : Digits ['0'] := digits_zeros 1
  have hpower : -((['0'] : Text).length : Int) + ((k + 1 : Nat) : Int) = k := by
    rw [List.length_singleton]
    omega
  rw [htext, number_fraction negative hintegral (by simp) hzero hrest, hvalue,
    Double.ofDecimal_shift negative hpos, hpower]

/-- The point between two digits. -/
theorem number_between (negative : Bool) (h : Significant digits) (hrest : NumberEnd rest) {n : Nat}
    (hn : 0 < n) (hlt : n < digits.length) :
    number (minus negative ++ (digits.take n ++ ("." : Text) ++ digits.drop n ++ rest))
      = .ok (.double (.ofDecimal negative (digitsValue digits) (n - digits.length)), rest) := by
  have hintegral : Integral (digits.take n) := by
    refine .inr ⟨by simp [h.ne_nil]; omega, ?_, fun c hc => h.all c (List.mem_of_mem_take hc)⟩
    rw [List.head?_take, if_neg (by omega)]
    exact h.head_ne
  have hplaces : digits.drop n ≠ [] := by
    rw [ne_eq, List.drop_eq_nil_iff]
    omega
  have htext : digits.take n ++ ("." : Text) ++ digits.drop n ++ rest
      = digits.take n ++ ('.' :: (digits.drop n ++ rest)) := by simp
  have hpower : -((digits.drop n).length : Int) = n - digits.length := by
    rw [List.length_drop]
    omega
  rw [htext, number_fraction negative hintegral hplaces
    (fun c hc => h.all c (List.mem_of_mem_drop hc)) hrest, List.take_append_drop, hpower]

/-- The point behind the first digit, and an exponent. -/
theorem number_power (negative : Bool) (h : Significant digits) (hrest : NumberEnd rest)
    (power : Int) :
    number (minus negative ++ (digits.take 1
        ++ ((if digits.length = 1 then [] else '.' :: digits.drop 1) ++ writePower power) ++ rest))
      = .ok (.double (.ofDecimal negative (digitsValue digits) (power + 1 - digits.length)),
        rest) := by
  obtain ⟨first, places, rfl⟩ := List.exists_cons_of_ne_nil h.ne_nil
  have hintegral : Integral [first] := by
    refine .inr ⟨by simp, by simpa using h.head_ne, fun c hc => h.all c ?_⟩
    rw [List.mem_singleton.1 hc]
    simp
  rcases places with _ | ⟨second, places⟩
  · have htext : [first].take 1 ++ ((if [first].length = 1 then [] else '.' :: [first].drop 1)
        ++ writePower power) ++ rest = [first] ++ (writePower power ++ rest) := by simp
    have hpower : power + 1 - ([first].length : Int) = power := by
      rw [List.length_singleton]
      omega
    rw [htext, number_append negative hintegral (noDigit_writePower power rest),
      afterIntegral_power negative _ power hrest.noDigit, hpower]
  · have htext : (first :: second :: places).take 1
        ++ ((if (first :: second :: places).length = 1 then []
          else '.' :: (first :: second :: places).drop 1) ++ writePower power) ++ rest
        = [first] ++ ('.' :: ((second :: places) ++ (writePower power ++ rest))) := by simp
    have hpower : power - ((second :: places).length : Int)
        = power + 1 - (first :: second :: places).length := by
      simp only [List.length_cons]
      omega
    rw [htext, number_append negative hintegral (noDigit_point _),
      afterIntegral_fraction_power negative _ (by simp) (fun c hc => h.all c (by simp [hc])) power
        hrest.noDigit, hpower]
    rfl

/-- However digits are laid out, what is read are these digits with the point in its place. -/
theorem number_layout (negative : Bool) (h : Significant digits) (hpos : 0 < digitsValue digits)
    (hrest : NumberEnd rest) (point : Int) :
    number (minus negative ++ (Double.layout digits point ++ rest))
      = .ok (.double (.ofDecimal negative (digitsValue digits) (point - digits.length)), rest) := by
  by_cases hplain : -4 < point ∧ point ≤ 16
  · rw [Double.layout, if_pos hplain]
    split_ifs with hsmall hwhole
    · have hpower : -(((-point).toNat + digits.length : Nat) : Int) = point - digits.length := by
        omega
      rw [number_front negative h hrest, hpower]
    · have hpower : ((point.toNat - digits.length : Nat) : Int) = point - digits.length := by omega
      rw [number_behind negative h hpos hrest, hpower]
    · have hpower : ((point.toNat : Nat) : Int) - digits.length = point - digits.length := by omega
      rw [number_between negative h hrest (by omega) (by omega), hpower]
  · rw [layout_of_power digits hplain, number_power negative h hrest, sub_add_cancel]

end Layouts

/-- The digits that are kept of a decimal are followed by zeros alone. -/
theorem significand_spec {digits : Nat} (hd : 0 < digits) (power : Int) :
    ∃ k : Nat, Significant (Double.significand digits power).1
      ∧ digits = digitsValue (Double.significand digits power).1 * 10 ^ k
      ∧ (Double.significand digits power).2
        = ((Double.significand digits power).1.length : Int) + (power + k) := by
  set all := Text.ofNat digits with hall
  set kept := (all.reverse.dropWhile (· == '0')).reverse with hkept
  set k := (all.reverse.takeWhile (· == '0')).length with hk
  have hzeros : all.reverse.takeWhile (· == '0') = List.replicate k '0' :=
    List.eq_replicate_iff.2 ⟨rfl, fun c hc => by simpa using List.mem_takeWhile_imp hc⟩
  have hsplit : all = kept ++ List.replicate k '0' := by
    rw [hkept, ← List.reverse_inj, List.reverse_append, List.reverse_reverse,
      List.reverse_replicate, ← hzeros, List.takeWhile_append_dropWhile]
  have hvalue : digits = digitsValue kept * 10 ^ k := by
    have h := Text.digitsValue_ofNat digits
    rw [← hall, hsplit, digitsValue_append, digitsValue_zeros, List.length_replicate] at h
    exact h.symm
  have hne : kept ≠ [] := by
    intro hnil
    rw [hnil] at hvalue
    simp [digitsValue] at hvalue
    omega
  refine ⟨k, ⟨hne, ?_, fun c hc => ?_⟩, hvalue, ?_⟩
  · have hhead := Text.head_ofNat_ne_zero hd
    rwa [← hall, hsplit, List.head?_append_of_ne_nil _ hne] at hhead
  · refine Text.isDigit_of_mem_ofNat (n := digits) ?_
    rw [← hall, hsplit]
    exact List.mem_append_left _ hc
  · have hlength : all.length = kept.length + k := by
      rw [hsplit, List.length_append, List.length_replicate]
    change (all.length : Int) + power = kept.length + (power + k)
    omega

/-- A canonical number is read back from the text that is written for it. -/
theorem number_write {negative : Bool} {mantissa : Nat} {exponent : Int}
    (h : Double.Canonical (.finite negative mantissa exponent)) {rest : Text}
    (hrest : NumberEnd rest) :
    number ((Double.finite negative mantissa exponent).write "Infinity" "NaN" ++ rest)
      = .ok (.double (.finite negative mantissa exponent), rest) := by
  rcases Nat.eq_zero_or_pos mantissa with rfl | hm
  · obtain rfl : exponent = Double.minExponent := by
      rcases h.2.2.2 with hfull | hleast
      · exact absurd hfull (by decide)
      · exact hleast
    have htext : (Double.finite negative 0 Double.minExponent).write "Infinity" "NaN" ++ rest
        = minus negative ++ (['0'] ++ ('.' :: (['0'] ++ rest))) := by
      simp [Double.write, minus]
    have hzero : Integral ['0'] := .inl rfl
    rw [htext, number_fraction negative hzero (by simp) hzero.digits hrest]
    rfl
  · have hshortest := Double.ofDecimal_shortest h hm
    set decimal := Double.shortest mantissa exponent with hdecimal
    have hd : 0 < decimal.1 := by
      by_contra hzero
      rw [Nat.eq_zero_of_not_pos hzero] at hshortest
      simp only [Double.ofDecimal, if_true, Double.zero, Double.finite.injEq] at hshortest
      omega
    obtain ⟨k, hsignificant, hdigits, hpoint⟩ := significand_spec hd decimal.2
    set parts := Double.significand decimal.1 decimal.2
    have hpos : 0 < digitsValue parts.1 := by
      by_contra hzero
      rw [Nat.eq_zero_of_not_pos hzero, Nat.zero_mul] at hdigits
      omega
    have htext : (Double.finite negative mantissa exponent).write "Infinity" "NaN" ++ rest
        = minus negative ++ (Double.layout parts.1 parts.2 ++ rest) := by
      simp only [Double.write, if_neg hm.ne', minus, List.append_assoc]
      rfl
    rw [htext, number_layout negative hsignificant hpos hrest, hpoint, add_sub_cancel_left,
      ← Double.ofDecimal_shift negative hpos, ← hdigits, Double.ofDecimal_withSign, hshortest]
    rfl

/-- An integer is read back from its digits, if they are not too many. -/
theorem number_ofInt {n : Int} (hlong : (Text.ofNat n.natAbs).length ≤ Text.maxDigits) {rest : Text}
    (hrest : NumberEnd rest) : number (Text.ofInt n ++ rest) = .ok (.int n, rest) := by
  have htext : Text.ofInt n ++ rest
      = minus (decide (n < 0)) ++ (Text.ofNat n.natAbs ++ rest) := by
    cases n <;> simp [Text.ofInt, minus, Int.negSucc_lt_zero]
  rw [htext, number_int _ (integral_ofNat _) hlong hrest, Text.digitsValue_ofNat]
  congr 3
  split <;> rename_i h <;> simp only [decide_eq_true_eq] at h <;> omega

end Json

end Dialogue
