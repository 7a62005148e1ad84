import Dialogue.Encoding.Fallback
import Dialogue.Proofs.Strings

/-!
# Values in a file that is read by its lines

A value that can be read (`Legible`) is written with line feeds between its parts, so cutting the
text into lines and joining them again changes it inside of strings only. It is read back if no
string in it is cut, and else the text is malformed (`value_writeAt`, `parse_pretty`).
-/

namespace Dialogue.Json

open Text (isLineEnd toNewline OneLine oneLine_append oneLine_ofInt)

/-! ## Words and numbers -/

theorem oneLine_of_digits {digits : Text} (h : Digits digits) : OneLine digits :=
  Text.oneLine_of_not_blank fun c hc => Text.isBlank_of_isDigit (h c hc)

theorem oneLine_ofNat (n : Nat) : OneLine (Text.ofNat n) :=
  oneLine_of_digits fun _ => Text.isDigit_of_mem_ofNat

theorem oneLine_writePower (power : Int) : OneLine (writePower power) := by
  unfold writePower
  refine oneLine_append.2 ⟨by split <;> decide, ?_⟩
  split
  · exact List.forall_mem_cons.2 ⟨by decide, oneLine_ofNat _⟩
  · exact oneLine_ofNat _

theorem oneLine_layout {digits : Text} (h : Digits digits) (point : Int) :
    OneLine (Double.layout digits point) := by
  have hzeros : ∀ k, OneLine (List.replicate k '0') := fun k => oneLine_of_digits (digits_zeros k)
  have htake : ∀ n, OneLine (digits.take n) := fun n =>
    oneLine_of_digits fun c hc => h c (List.mem_of_mem_take hc)
  have hdrop : ∀ n, OneLine ('.' :: digits.drop n) := fun n => List.forall_mem_cons.2
    ⟨by decide, oneLine_of_digits fun c hc => h c (List.mem_of_mem_drop hc)⟩
  by_cases hplain : -4 < point ∧ point ≤ 16
  · rw [Double.layout, if_pos hplain]
    split_ifs
    · exact oneLine_append.2 ⟨oneLine_append.2 ⟨by decide, hzeros _⟩, oneLine_of_digits h⟩
    · exact oneLine_append.2 ⟨oneLine_append.2 ⟨oneLine_of_digits h, hzeros _⟩, by decide⟩
    · rw [List.append_assoc]
      exact oneLine_append.2 ⟨htake _, hdrop _⟩
  · rw [layout_of_power digits hplain]
    refine oneLine_append.2 ⟨htake 1, oneLine_append.2 ⟨?_, oneLine_writePower _⟩⟩
    split
    · simp [OneLine]
    · exact hdrop 1

theorem digits_significand (digits : Nat) (power : Int) :
    Digits (Double.significand digits power).1 := by
  intro c hc
  refine Text.isDigit_of_mem_ofNat (n := digits) ?_
  have hmem := List.mem_reverse.1 hc
  exact List.mem_reverse.1 ((List.dropWhile_suffix _).subset hmem)

theorem oneLine_write (d : Double) : OneLine (d.write "Infinity" "NaN") := by
  have hminus : ∀ negative : Bool, OneLine (if negative then ['-'] else []) := by decide
  cases d with
  | finite negative mantissa exponent =>
    refine oneLine_append.2 ⟨hminus negative, ?_⟩
    split
    · decide
    · exact oneLine_layout (digits_significand _ _) _
  | infinite negative => exact oneLine_append.2 ⟨hminus negative, by decide⟩
  | nan => exact (by decide : OneLine "NaN".toList)

/-- What a number starts with. -/
theorem head_of_number {text : Text} {r : Json × Text} (h : number text = .ok r) :
    ∃ c tail, text = c :: tail ∧ (c = '-' ∨ c.isDigit = true) := by
  by_cases hminus : ∃ tail, text = '-' :: tail
  · obtain ⟨tail, rfl⟩ := hminus
    exact ⟨'-', tail, rfl, .inl rfl⟩
  · rcases hintegral : integral? text with _ | ⟨digits, rest⟩
    · rw [number, hintegral] at h
      · cases h
      · exact fun tail htail => hminus ⟨tail, htail⟩
    · obtain ⟨⟨more, rfl⟩, -, hdigits, hne⟩ := integral?_spec hintegral
      obtain ⟨c, digits, rfl⟩ := List.exists_cons_of_ne_nil hne
      exact ⟨c, digits ++ more, rfl, .inr (hdigits c (by simp))⟩

theorem number_word : ∀ word ∈ words, ∀ rest, number (word.1 ++ rest) = .error .malformed := by
  simp only [words, List.forall_mem_cons]
  exact ⟨fun _ => rfl, fun _ => rfl, fun _ => rfl, fun _ => rfl, fun _ => rfl, fun _ => rfl,
    by simp⟩

theorem scalar_of_number {text : Text} {r : Json × Text} (h : number text = .ok r) :
    scalar text = .ok r := by
  have hnone : (words.findSome? fun word => (Text.after? word.1 text).map (word.2, ·)) = none := by
    rw [List.findSome?_eq_none_iff]
    intro word hword
    rcases hafter : Text.after? word.1 text with _ | rest
    · rfl
    · rw [Text.after?_eq_some_iff.1 hafter, number_word word hword rest] at h
      cases h
  rw [scalar, hnone]
  exact h

/-- A text that is read as a word or a number, whatever may follow it. -/
structure Plain (text : Text) (v : Json) : Prop where
  oneLine : OneLine text
  head : ∃ c tail, text = c :: tail ∧ (c = '-' ∨ c.isAlphanum = true)
  scalar : ∀ {rest}, NumberEnd rest → Json.scalar (text ++ rest) = .ok (v, rest)

theorem plain_of_number {text : Text} {v : Json} (hone : OneLine text)
    (h : ∀ {rest}, NumberEnd rest → number (text ++ rest) = .ok (v, rest)) : Plain text v where
  oneLine := hone
  head := by
    have hnumber : number (text ++ []) = .ok (v, []) := h (by simp [NumberEnd])
    rw [List.append_nil] at hnumber
    obtain ⟨c, tail, rfl, hc⟩ := head_of_number hnumber
    exact ⟨c, tail, rfl, hc.imp_right fun hdigit => by simp [Char.isAlphanum, hdigit]⟩
  scalar hrest := scalar_of_number (h hrest)

theorem plain_bool (b : Bool) : Plain (writeScalar .unicode (.bool b)) (.bool b) := by
  cases b with
  | true => exact ⟨by decide, ⟨_, _, rfl, .inr rfl⟩, fun _ => rfl⟩
  | false => exact ⟨by decide, ⟨_, _, rfl, .inr rfl⟩, fun _ => rfl⟩

theorem plain_double {d : Double} (h : d.Canonical) :
    Plain (writeScalar .unicode (.double d)) (.double d) := by
  cases d with
  | finite negative mantissa exponent =>
    exact plain_of_number (oneLine_write (.finite negative mantissa exponent)) fun hrest =>
      number_write h hrest
  | infinite negative =>
    cases negative with
    | true => exact ⟨by decide, ⟨_, _, rfl, .inl rfl⟩, fun _ => rfl⟩
    | false => exact ⟨by decide, ⟨_, _, rfl, .inr rfl⟩, fun _ => rfl⟩
  | nan => exact ⟨by decide, ⟨_, _, rfl, .inr rfl⟩, fun _ => rfl⟩

theorem plain_null : Plain (writeScalar .unicode .null) .null :=
  ⟨by decide, ⟨_, _, rfl, .inr rfl⟩, fun _ => rfl⟩

theorem plain_int {n : Int} (h : (Text.ofNat n.natAbs).length ≤ Text.maxDigits) :
    Plain (writeScalar .unicode (.int n)) (.int n) :=
  plain_of_number (oneLine_ofInt n) fun hrest => number_ofInt h hrest

theorem Plain.value {text rest : Text} {v : Json} (h : Plain text v) (hrest : NumberEnd rest)
    (fuel room : Nat) :
    value (fuel + 1) room (text.map toNewline ++ rest) = .ok (v, rest) := by
  rw [Text.map_toNewline_of_oneLine h.oneLine, ← h.scalar hrest]
  obtain ⟨c, tail, rfl, hc⟩ := h.head
  have hne : ∀ d : Char, d ≠ '-' → d.isAlphanum = false → c ≠ d := by
    rintro d hminus halpha rfl
    rcases hc with hc | hc
    · exact hminus hc
    · rw [halpha] at hc
      cases hc
  have hquote := hne '\x22' (by decide) (by decide)
  have hbracket := hne '[' (by decide) (by decide)
  have hbrace := hne '\x7b' (by decide) (by decide)
  rw [Json.value.eq_def]
  split <;> simp_all

/-! ## Values -/

mutual

/-- The strings in a value, the names of fields among them. -/
def texts : Json → List Text
  | .string s => [s]
  | .array items => itemTexts items
  | .object fields => fieldTexts fields
  | .null => []
  | .bool _ => []
  | .int _ => []
  | .double _ => []

/-- The strings in the items of an array. -/
def itemTexts : List Json → List Text
  | [] => []
  | item :: rest => texts item ++ itemTexts rest

/-- The strings in the fields of an object. -/
def fieldTexts : List (Text × Json) → List Text
  | [] => []
  | (name, item) :: rest => name :: (texts item ++ fieldTexts rest)

end

/-- What is read back where the strings were written: nothing if one of them is cut. -/
def readBack {α : Type} (texts : List Text) (a : α) (rest : Text) : Read α :=
  if ∀ s ∈ texts, Unbroken s then .ok (a, rest) else .error .malformed

theorem readBack_nil {α : Type} (a : α) (rest : Text) : readBack [] a rest = .ok (a, rest) :=
  if_pos (by simp)

theorem readBack_map {α β : Type} (f : α → β) (texts : List Text) (a : α) (rest : Text) :
    (readBack texts a rest).map (fun (a, tail) => (f a, tail)) = readBack texts (f a) rest := by
  unfold readBack
  split <;> rfl

theorem readBack_append {α β : Type} {first second : List Text} {a : α} {b : β} {mid rest : Text}
    {next : α × Text → Read β} (h : next (a, mid) = readBack second b rest) :
    (readBack first a mid).bind next = readBack (first ++ second) b rest := by
  unfold readBack at h ⊢
  by_cases hfirst : ∀ s ∈ first, Unbroken s
  · rw [if_pos hfirst]
    exact h.trans (if_congr (by rw [List.forall_mem_append, and_iff_right hfirst]) rfl rfl)
  · rw [if_neg hfirst, if_neg fun hall => hfirst (List.forall_mem_append.1 hall).1]
    rfl

/-- A text that starts with a character that is kept, no blank and no closing bracket. -/
def Opens (text : Text) : Prop :=
  ∃ c tail, text = c :: tail ∧ isLineEnd c = false ∧ c ∉ [' ', '\t', ']']

theorem Plain.opens {text : Text} {v : Json} (h : Plain text v) : Opens text := by
  obtain ⟨c, tail, htext, hc⟩ := h.head
  refine ⟨c, tail, htext, h.oneLine c (by simp [htext]), fun hmem => ?_⟩
  have hnot : [' ', '\t', ']'].all (fun d => d != '-' && !d.isAlphanum) = true := by decide
  have hd := List.all_eq_true.1 hnot c hmem
  simp only [Bool.and_eq_true, bne_iff_ne, Bool.not_eq_true'] at hd
  rcases hc with rfl | hc
  · exact hd.1 rfl
  · exact Bool.false_ne_true (hd.2.symm.trans hc)

theorem opens_writeAt {room : Nat} {v : Json} (h : Legible room v) (depth : Nat) :
    Opens (writeAt .unicode depth v) := by
  cases h with
  | null => exact plain_null.opens
  | bool b => exact (plain_bool b).opens
  | int short => exact (plain_int short).opens
  | double canonical => exact (plain_double canonical).opens
  | string s => exact ⟨'\x22', _, rfl, by decide, by decide⟩
  | @array room items _ => cases items <;> exact ⟨'[', _, rfl, by decide, by decide⟩
  | @object room fields _ _ => cases fields <;> exact ⟨'\x7b', _, rfl, by decide, by decide⟩

theorem skipBlanks_indent (depth : Nat) (text : Text) :
    skipBlanks ((indent depth).map toNewline ++ text) = skipBlanks text := by
  have hblank : ∀ c ∈ (indent depth).map toNewline, c = ' ' ∨ c = '\n' := by
    intro c hc
    obtain ⟨d, hd, rfl⟩ := List.mem_map.1 hc
    rcases List.mem_cons.1 hd with rfl | hd
    · exact .inr rfl
    · exact .inl (by rw [(List.mem_replicate.1 hd).2]; rfl)
  exact List.dropWhile_append_of_pos fun c hc => by
    rcases hblank c hc with rfl | rfl <;> rfl

theorem Opens.map_toNewline {text : Text} (h : Opens text) : ∃ c tail,
    text.map toNewline = c :: tail ∧ c ∉ [' ', '\t', '\n', '\r', ']'] := by
  obtain ⟨c, tail, rfl, hline, hc⟩ := h
  have hnewline : c ≠ '\n' ∧ c ≠ '\r' := by
    constructor <;> rintro rfl <;> exact absurd hline (by decide)
  have hkept : toNewline c = c := if_neg (by simp [hline])
  exact ⟨c, _, by rw [List.map_cons, hkept], by simp_all⟩

theorem skipBlanks_opens {text : Text} (h : Opens text) (rest : Text) :
    skipBlanks (text.map toNewline ++ rest) = text.map toNewline ++ rest := by
  obtain ⟨c, tail, htext, hc⟩ := h.map_toNewline
  rw [htext]
  exact List.dropWhile_cons_of_neg (by simp_all)

/-- Behind the blanks of a depth stands what is written there. -/
theorem skipBlanks_indent_append {text : Text} (h : Opens text) (depth : Nat) (more rest : Text) :
    skipBlanks ((indent depth ++ text ++ more).map toNewline ++ rest)
      = (text ++ more).map toNewline ++ rest := by
  rw [List.append_assoc, List.map_append, List.append_assoc, skipBlanks_indent, List.map_append,
    List.append_assoc, skipBlanks_opens h]

theorem skipBlanks_close {c : Char} (h : c = ']' ∨ c = '\x7d') (depth : Nat) (rest : Text) :
    skipBlanks ((indent depth ++ [c]).map toNewline ++ rest) = c :: rest := by
  rw [List.map_append, List.append_assoc, skipBlanks_indent]
  rcases h with rfl | rfl <;> rfl

theorem numberEnd_writeItems (depth : Nat) (items : List Json) (rest : Text) :
    NumberEnd ((writeItems .unicode depth items).map toNewline ++ rest) := by
  cases items <;> exact fun c hc => Option.some.inj hc ▸ by decide

theorem numberEnd_writeFields (depth : Nat) (fields : List (Text × Json)) (rest : Text) :
    NumberEnd ((writeFields .unicode depth fields).map toNewline ++ rest) := by
  cases fields with
  | nil => exact fun c hc => Option.some.inj hc ▸ by decide
  | cons f fields => exact fun c hc => Option.some.inj hc ▸ by decide

theorem length_le_flatMap_writeChar : ∀ s : Text, s.length ≤ (s.flatMap (writeChar .unicode)).length
  | [] => Nat.le_refl 0
  | c :: s => by
    have hc : 0 < (writeChar .unicode c).length := by
      by_cases hletter : c ∈ lettered
      · obtain ⟨d, hwrite, -⟩ := writeChar_of_lettered c hletter
        simp [hwrite]
      · rw [writeChar_of_not_lettered hletter, codeEscape]
        split_ifs <;> simp [unitEscape]
    have hs := length_le_flatMap_writeChar s
    rw [List.flatMap_cons, List.length_append, List.length_cons]
    omega

theorem stringTail_quoted (s rest : Text) :
    let quoted := (s.flatMap (writeChar .unicode) ++ ['\x22']).map toNewline ++ rest
    stringTail (quoted.length + 1) quoted = readBack [s] s rest := by
  intro quoted
  have hlength := length_le_flatMap_writeChar s
  have hfuel : s.length < quoted.length + 1 := by
    simp only [quoted, List.length_append, List.length_map, List.length_singleton]
    omega
  exact (stringTail_writeString hfuel).trans (if_congr (by simp) rfl rfl)

theorem value_writeString (s rest : Text) (fuel room : Nat) :
    Json.value (fuel + 1) room ((writeString .unicode s).map toNewline ++ rest)
      = readBack [s] (.string s) rest := by
  rw [← readBack_map, ← stringTail_quoted, writeString, Json.value.eq_def]
  rfl

/-- What the three readers make of written values with some fuel. -/
structure ReadsAt (fuel : Nat) : Prop where
  value : ∀ {v room depth rest}, Legible room v → NumberEnd rest →
    2 * (writeAt .unicode depth v).length ≤ fuel →
    Json.value fuel room ((writeAt .unicode depth v).map toNewline ++ rest)
      = readBack v.texts v rest
  items : ∀ {item items room depth rest}, (∀ v ∈ item :: items, Legible room v) →
    2 * (writeAt .unicode (depth + 1) item ++ writeItems .unicode depth items).length < fuel →
    Json.items fuel room
        ((writeAt .unicode (depth + 1) item ++ writeItems .unicode depth items).map toNewline ++ rest)
      = readBack (itemTexts (item :: items)) (item :: items) rest
  fields : ∀ {name item fields room depth rest}, (∀ f ∈ (name, item) :: fields, Legible room f.2) →
    2 * (writeString .unicode name ++ ": " ++ writeAt .unicode (depth + 1) item
      ++ writeFields .unicode depth fields).length < fuel →
    Json.fields fuel room ((writeString .unicode name ++ ": " ++ writeAt .unicode (depth + 1) item
        ++ writeFields .unicode depth fields).map toNewline ++ rest)
      = readBack (fieldTexts ((name, item) :: fields)) ((name, item) :: fields) rest

theorem items_succ_eq (fuel room : Nat) (text : Text) :
    Json.items (fuel + 1) room text = (Json.value fuel room text).bind fun (item, rest) =>
      match skipBlanks rest with
      | ']' :: tail => .ok ([item], tail)
      | ',' :: more => (Json.items fuel room (skipBlanks more)).map fun (xs, tail) =>
        (item :: xs, tail)
      | _ => .error .malformed := by
  rw [Json.items]
  rcases Json.value fuel room text with e | ⟨item, rest⟩ <;> rfl

theorem ReadsAt.items_succ {fuel : Nat} (h : ReadsAt fuel) {item : Json} {items : List Json}
    {room depth : Nat} {rest : Text} (hlegible : ∀ v ∈ item :: items, Legible room v)
    (hfuel : 2 * (writeAt .unicode (depth + 1) item ++ writeItems .unicode depth items).length
      < fuel + 1) :
    Json.items (fuel + 1) room
        ((writeAt .unicode (depth + 1) item ++ writeItems .unicode depth items).map toNewline ++ rest)
      = readBack (itemTexts (item :: items)) (item :: items) rest := by
  obtain ⟨hitem, hitems⟩ := List.forall_mem_cons.1 hlegible
  rw [List.length_append] at hfuel
  rw [items_succ_eq, List.map_append, List.append_assoc,
    h.value hitem (numberEnd_writeItems depth items rest) (by omega), itemTexts]
  refine readBack_append ?_
  rcases items with _ | ⟨next, items⟩
  · have hclose : skipBlanks ((writeItems .unicode depth []).map toNewline ++ rest) = ']' :: rest := by
      rw [writeItems]
      exact skipBlanks_close (.inl rfl) depth rest
    simp only [hclose]
    exact (readBack_nil _ _).symm
  · have hopens := opens_writeAt (hitems next (by simp)) (depth + 1)
    have hnext := skipBlanks_indent_append hopens (depth + 1) (writeItems .unicode depth items) rest
    have hskip : skipBlanks ((writeItems .unicode depth (next :: items)).map toNewline ++ rest)
        = ',' :: ((indent (depth + 1) ++ writeAt .unicode (depth + 1) next
          ++ writeItems .unicode depth items).map toNewline ++ rest) := by
      rw [writeItems]
      rfl
    have hshorter : 2 * (writeAt .unicode (depth + 1) next
        ++ writeItems .unicode depth items).length < fuel := by
      simp only [writeItems, List.length_cons, List.length_append] at hfuel ⊢
      omega
    simp only [hskip, hnext]
    rw [h.items hitems hshorter, readBack_map]

theorem fields_succ_eq (fuel room : Nat) (quoted : Text) :
    Json.fields (fuel + 1) room ('\x22' :: quoted)
      = (stringTail (quoted.length + 1) quoted).bind fun (name, rest) =>
        match skipBlanks rest with
        | ':' :: more => (Json.value fuel room (skipBlanks more)).bind fun (item, rest) =>
          match skipBlanks rest with
          | '\x7d' :: tail => .ok ([(name, item)], tail)
          | ',' :: more => (Json.fields fuel room (skipBlanks more)).map fun (xs, tail) =>
            ((name, item) :: xs, tail)
          | _ => .error .malformed
        | _ => .error .malformed := by
  rw [Json.fields]
  rcases stringTail (quoted.length + 1) quoted with e | ⟨name, rest⟩
  · rfl
  · by_cases hcolon : ∃ more, skipBlanks rest = ':' :: more
    · obtain ⟨more, heq⟩ := hcolon
      simp only [Except.bind, heq]
      rcases Json.value fuel room (skipBlanks more) with e | ⟨item, rest⟩ <;> rfl
    · have hno : ∀ more, skipBlanks rest ≠ ':' :: more := fun more heq => hcolon ⟨more, heq⟩
      simp only [Except.bind]

theorem ReadsAt.fields_succ {fuel : Nat} (h : ReadsAt fuel) {name : Text} {item : Json}
    {fields : List (Text × Json)} {room depth : Nat} {rest : Text}
    (hlegible : ∀ f ∈ (name, item) :: fields, Legible room f.2)
    (hfuel : 2 * (writeString .unicode name ++ ": " ++ writeAt .unicode (depth + 1) item
      ++ writeFields .unicode depth fields).length < fuel + 1) :
    Json.fields (fuel + 1) room ((writeString .unicode name ++ ": "
        ++ writeAt .unicode (depth + 1) item ++ writeFields .unicode depth fields).map toNewline
          ++ rest)
      = readBack (fieldTexts ((name, item) :: fields)) ((name, item) :: fields) rest := by
  have hitem : Legible room item := hlegible (name, item) (by simp)
  have hfields := (List.forall_mem_cons.1 hlegible).2
  have htext : (writeString .unicode name ++ ": " ++ writeAt .unicode (depth + 1) item
        ++ writeFields .unicode depth fields).map toNewline ++ rest
      = '\x22' :: ((name.flatMap (writeChar .unicode) ++ ['\x22']).map toNewline
        ++ (':' :: ' ' :: ((writeAt .unicode (depth + 1) item).map toNewline
          ++ ((writeFields .unicode depth fields).map toNewline ++ rest)))) := by
    simp only [writeString, List.map_append, List.map_cons, List.append_assoc, List.cons_append]
    rfl
  have hskip : ∀ more, skipBlanks (':' :: more) = ':' :: more := fun _ => rfl
  have hspace : ∀ more, skipBlanks (' ' :: more) = skipBlanks more := fun _ => rfl
  have hopens := opens_writeAt hitem (depth + 1)
  simp only [List.length_append] at hfuel
  have htexts : fieldTexts ((name, item) :: fields)
      = [name] ++ (texts item ++ fieldTexts fields) := rfl
  rw [htext, fields_succ_eq, stringTail_quoted, htexts]
  refine readBack_append ?_
  simp only [hskip, hspace, skipBlanks_opens hopens]
  rw [h.value hitem (numberEnd_writeFields depth fields rest) (by omega)]
  refine readBack_append ?_
  rcases fields with _ | ⟨⟨other, next⟩, fields⟩
  · have hclose : skipBlanks ((writeFields .unicode depth []).map toNewline ++ rest)
        = '\x7d' :: rest := by
      rw [writeFields]
      exact skipBlanks_close (.inr rfl) depth rest
    simp only [hclose]
    exact (readBack_nil _ _).symm
  · have hname : Opens (writeString .unicode other ++ ": " ++ writeAt .unicode (depth + 1) next) :=
      ⟨'\x22', _, rfl, by decide, by decide⟩
    have hnext := skipBlanks_indent_append hname (depth + 1) (writeFields .unicode depth fields) rest
    have hcomma : skipBlanks ((writeFields .unicode depth ((other, next) :: fields)).map toNewline
          ++ rest)
        = ',' :: ((indent (depth + 1) ++ (writeString .unicode other ++ ": "
          ++ writeAt .unicode (depth + 1) next) ++ writeFields .unicode depth fields).map toNewline
            ++ rest) := by
      rw [writeFields]
      simp only [← List.append_assoc]
      rfl
    have hshorter : 2 * (writeString .unicode other ++ ": " ++ writeAt .unicode (depth + 1) next
        ++ writeFields .unicode depth fields).length < fuel := by
      simp only [writeFields, List.length_cons, List.length_append] at hfuel ⊢
      omega
    simp only [hcomma, hnext]
    rw [h.fields hfields hshorter, readBack_map]

theorem ofFields_of_nodup {fields : List (Text × Json)} (h : (fields.map (·.1)).Nodup) :
    ofFields fields = .object fields := by
  have hdistinct : Table.Distinct fields := (List.pairwise_map.1 h).imp fun hne => by simpa using hne
  have hentries : (Table.ofList fields).entries = fields := Table.insertAll_of_distinct hdistinct
  exact congrArg Json.object hentries

theorem value_bracket {fuel room : Nat} {tail inner : Text} (h : skipBlanks tail = inner)
    (hne : ∀ more, inner ≠ ']' :: more) : Json.value (fuel + 1) (room + 1) ('[' :: tail)
      = (Json.items fuel room inner).map fun (xs, tail) => (.array xs, tail) := by
  rw [Json.value.eq_def]
  simp only [h]

theorem value_brace {fuel room : Nat} {tail inner : Text} (h : skipBlanks tail = inner)
    (hne : ∀ more, inner ≠ '\x7d' :: more) : Json.value (fuel + 1) (room + 1) ('\x7b' :: tail)
      = (Json.fields fuel room inner).map fun (xs, tail) => (ofFields xs, tail) := by
  rw [Json.value.eq_def]
  simp only [h]

theorem ReadsAt.value_succ {fuel : Nat} (h : ReadsAt fuel) {v : Json} {room depth : Nat} {rest : Text}
    (hlegible : Legible room v) (hrest : NumberEnd rest)
    (hfuel : 2 * (writeAt .unicode depth v).length ≤ fuel + 1) :
    Json.value (fuel + 1) room ((writeAt .unicode depth v).map toNewline ++ rest)
      = readBack v.texts v rest := by
  have hplain : ∀ {w : Json}, Plain (writeAt .unicode depth w) w → w.texts = [] →
      Json.value (fuel + 1) room ((writeAt .unicode depth w).map toNewline ++ rest)
        = readBack w.texts w rest := by
    intro w hw htexts
    rw [hw.value hrest, htexts, readBack_nil]
  cases hlegible with
  | null => exact hplain (by rw [writeAt]; exact plain_null) (by rw [texts])
  | bool b => exact hplain (by rw [writeAt]; exact plain_bool b) (by rw [texts])
  | int short => exact hplain (by rw [writeAt]; exact plain_int short) (by rw [texts])
  | double canonical =>
    exact hplain (by rw [writeAt]; exact plain_double canonical) (by rw [texts])
  | string s =>
    rw [writeAt, texts]
    exact value_writeString s rest fuel room
  | @array room items hitems =>
    rcases items with _ | ⟨item, items⟩
    · exact (readBack_nil _ _).symm
    have hopens := opens_writeAt (hitems item (by simp)) (depth + 1)
    have hinner := skipBlanks_indent_append hopens (depth + 1) (writeItems .unicode depth items) rest
    have hne : ∀ more, (writeAt .unicode (depth + 1) item
        ++ writeItems .unicode depth items).map toNewline ++ rest ≠ ']' :: more := by
      obtain ⟨c, tail, htext, hc⟩ := hopens.map_toNewline
      rintro more heq
      rw [List.map_append, htext] at heq
      exact hc (by simp [(List.cons.inj heq).1])
    rw [writeAt, List.length_cons] at hfuel
    simp only [List.length_append] at hfuel
    rw [writeAt, texts]
    refine (value_bracket hinner hne).trans ?_
    rw [h.items hitems (by rw [List.length_append]; omega), readBack_map]
  | @object room fields hnodup hfields =>
    rcases fields with _ | ⟨⟨name, item⟩, fields⟩
    · exact (readBack_nil _ _).symm
    have hname : Opens (writeString .unicode name ++ ": " ++ writeAt .unicode (depth + 1) item) :=
      ⟨'\x22', _, rfl, by decide, by decide⟩
    have hinner := skipBlanks_indent_append hname (depth + 1) (writeFields .unicode depth fields) rest
    have hbrace : ∀ more, (writeString .unicode name ++ ": " ++ writeAt .unicode (depth + 1) item
        ++ writeFields .unicode depth fields).map toNewline ++ rest ≠ '\x7d' :: more :=
      fun more heq => absurd (List.cons.inj heq).1 (by decide)
    rw [writeAt, List.length_cons] at hfuel
    simp only [List.length_append] at hfuel
    rw [writeAt, texts, ← ofFields_of_nodup hnodup]
    simp only [← List.append_assoc] at hinner ⊢
    refine (value_brace hinner hbrace).trans ?_
    rw [h.fields hfields (by simp only [List.length_append]; omega), readBack_map]

theorem readsAt : ∀ fuel, ReadsAt fuel
  | 0 => by
    refine ⟨fun {v room depth rest} hlegible _ hfuel => ?_, fun _ h => absurd h (Nat.not_lt_zero _),
      fun _ h => absurd h (Nat.not_lt_zero _)⟩
    -- without fuel there is nothing to read, and no value is written as nothing
    obtain ⟨c, tail, htext, -⟩ := opens_writeAt hlegible depth
    rw [htext, List.length_cons] at hfuel
    omega
  | fuel + 1 =>
    have h := readsAt fuel
    ⟨h.value_succ, h.items_succ, h.fields_succ⟩

/-- A legible value that is written, cut into lines and joined again is read back if no string in
it is cut, and else the text is malformed. -/
theorem parse_pretty {limit : Nat} {v : Json} (h : Legible limit v) :
    parse limit ((pretty .unicode v).map toNewline)
      = if ∀ s ∈ v.texts, Unbroken s then .ok v else .error .malformed := by
  have hskip : skipBlanks ((pretty .unicode v).map toNewline ++ [])
      = (pretty .unicode v).map toNewline ++ [] := skipBlanks_opens (opens_writeAt h 0) []
  have hvalue : value (2 * ((pretty .unicode v).map toNewline).length + 2) limit
      ((pretty .unicode v).map toNewline ++ []) = readBack v.texts v [] :=
    (readsAt _).value h (by simp [NumberEnd]) (by rw [List.length_map]; exact Nat.le_add_right _ 2)
  rw [List.append_nil] at hskip hvalue
  rw [parse, hskip, hvalue, readBack]
  by_cases hkept : ∀ s ∈ v.texts, Unbroken s
  · rw [if_pos hkept, if_pos hkept]
    rfl
  · rw [if_neg hkept, if_neg hkept]

/-! ## The text of a file -/

theorem no_return_of_oneLine {text : Text} (h : OneLine text) : '\r' ∉ text :=
  fun hmem => absurd (h '\r' hmem) (by decide)

theorem no_return_writeChar (c : Char) : '\r' ∉ writeChar .unicode c := by
  by_cases hletter : c ∈ lettered
  · obtain ⟨d, hwrite, hone, -⟩ := writeChar_of_lettered c hletter
    rw [hwrite]
    exact no_return_of_oneLine hone
  · rw [writeChar_of_not_lettered hletter]
    split
    · rename_i hc
      exact no_return_of_oneLine (oneLine_codeEscape hc)
    · rename_i hc
      rw [List.mem_singleton]
      rintro rfl
      exact hc (by decide)

theorem no_return_writeString (s : Text) : '\r' ∉ writeString .unicode s := by
  simp [writeString, no_return_writeChar]

theorem no_return_indent (depth : Nat) : '\r' ∉ indent depth := by simp [indent]

theorem no_return_writeItems {depth : Nat} : ∀ {items : List Json},
    (∀ v ∈ items, ∀ depth, '\r' ∉ writeAt .unicode depth v) →
      '\r' ∉ writeItems .unicode depth items
  | [], _ => by simp [writeItems, no_return_indent]
  | item :: items, h => by
    obtain ⟨hitem, hitems⟩ := List.forall_mem_cons.1 h
    simp [writeItems, no_return_indent, hitem, no_return_writeItems hitems]

theorem no_return_writeFields {depth : Nat} : ∀ {fields : List (Text × Json)},
    (∀ f ∈ fields, ∀ depth, '\r' ∉ writeAt .unicode depth f.2) →
      '\r' ∉ writeFields .unicode depth fields
  | [], _ => by simp [writeFields, no_return_indent]
  | (name, item) :: fields, h => by
    obtain ⟨hitem, hfields⟩ := List.forall_mem_cons.1 h
    simp [writeFields, no_return_indent, no_return_writeString, hitem,
      no_return_writeFields hfields]

theorem no_return_writeAt {room : Nat} {v : Json} (h : Legible room v) :
    ∀ depth, '\r' ∉ writeAt .unicode depth v := by
  induction h with
  | null => exact fun _ => no_return_of_oneLine plain_null.oneLine
  | bool b => exact fun _ => no_return_of_oneLine (plain_bool b).oneLine
  | int short => exact fun _ => no_return_of_oneLine (plain_int short).oneLine
  | double canonical => exact fun _ => no_return_of_oneLine (plain_double canonical).oneLine
  | string s => exact fun _ => no_return_writeString s
  | @array room items _ ih =>
    intro depth
    rcases items with _ | ⟨item, items⟩
    · simp [writeAt]
    · obtain ⟨hitem, hitems⟩ := List.forall_mem_cons.1 ih
      simp [writeAt, no_return_indent, hitem, no_return_writeItems hitems]
  | @object room fields _ _ ih =>
    intro depth
    rcases fields with _ | ⟨⟨name, item⟩, fields⟩
    · simp [writeAt]
    · obtain ⟨hitem, hfields⟩ := List.forall_mem_cons.1 ih
      simp [writeAt, no_return_indent, no_return_writeString, hitem,
        no_return_writeFields hfields]

theorem getLast?_writeItems (depth : Nat) : ∀ items : List Json,
    (writeItems .unicode depth items).getLast? = some ']'
  | [] => by simp [writeItems]
  | item :: items => by
    obtain ⟨start, hstart⟩ := List.getLast?_eq_some_iff.1 (getLast?_writeItems depth items)
    rw [writeItems, hstart, ← List.append_assoc, ← List.cons_append, List.getLast?_concat]

/-- The text of a list that is read from its file by the lines. -/
theorem unlines_lines_pretty {limit : Nat} {items : List Json} (h : Legible limit (.array items)) :
    Text.unlines (Text.lines (Encoding.dropMark (pretty .unicode (.array items))))
      = (pretty .unicode (.array items)).map toNewline := by
  have hmark : Encoding.dropMark (pretty .unicode (.array items)) = pretty .unicode (.array items) := by
    cases items <;> rfl
  have hlast : (pretty .unicode (.array items)).getLast? = some ']' := by
    rcases items with _ | ⟨item, items⟩
    · rfl
    · obtain ⟨start, hstart⟩ := List.getLast?_eq_some_iff.1 (getLast?_writeItems 0 items)
      rw [pretty, writeAt, hstart, ← List.append_assoc, ← List.cons_append, List.getLast?_concat]
  have hreturn : '\r' ∉ pretty .unicode (.array items) := no_return_writeAt h 0
  rw [hmark, Text.unlines_lines hreturn]
  rintro c hc
  rw [hlast] at hc
  rw [← Option.some.inj hc]
  decide

end Dialogue.Json
