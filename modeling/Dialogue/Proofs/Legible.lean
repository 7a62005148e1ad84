import Dialogue.Json.Printer
import Dialogue.Proofs.Numbers
import Dialogue.Proofs.Tables

/-!
# What reading JSON gives

A read leaves an end of the text. The value that is read is legible (`Legible`): its integers have
not too many digits, its numbers are canonical, its objects name no field twice, and it nests only
so deep. Where nothing is read for another reason than the grammar, the text itself has a run of too
many digits, too many brackets or an escape with the letter `u` (`Explains`). One induction over the
reader shows all of this (`sound_value`). A legible value can also be written where it could be read
(`fault?_of_legible`).
-/

namespace Dialogue.Json

open Text (maxDigits digitsValue)

/-- A value that can be read back where `room` containers may be opened. -/
inductive Legible : Nat → Json → Prop
  | null {room : Nat} : Legible room .null
  | bool {room : Nat} (b : Bool) : Legible room (.bool b)
  | int {room : Nat} {n : Int} (short : (Text.ofNat n.natAbs).length ≤ maxDigits) :
    Legible room (.int n)
  | double {room : Nat} {d : Double} (canonical : d.Canonical) : Legible room (.double d)
  | string {room : Nat} (s : Text) : Legible room (.string s)
  | array {room : Nat} {items : List Json} (legible : ∀ v ∈ items, Legible room v) :
    Legible (room + 1) (.array items)
  | object {room : Nat} {fields : List (Text × Json)} (nodup : (fields.map (·.1)).Nodup)
      (legible : ∀ f ∈ fields, Legible room f.2) : Legible (room + 1) (.object fields)

/-- The brackets that open a container. -/
def brackets (text : Text) : Nat := text.countP fun c => c == '[' || c == '\x7b'

/-- What the text has where a read of it is refused. -/
def Explains (room : Nat) (text : Text) : ParseError → Prop
  | .malformed => True
  | .overlong e => ∃ run, run <:+: text ∧ Digits run ∧ maxDigits < run.length ∧ e = ⟨run.length⟩
  | .tooDeep _ => room < brackets text
  | .unpaired => ['\\', 'u'] <:+: text

/-- A read leaves an end of the text and gives what has the property, or there is a reason. -/
def Sound {α : Type} (P : α → Prop) (room : Nat) (text : Text) : Read α → Prop
  | .ok (a, rest) => rest <:+ text ∧ P a
  | .error e => Explains room text e

theorem Explains.of_suffix {room : Nat} {part text : Text} {e : ParseError}
    (h : Explains room part e) (hs : part <:+ text) : Explains room text e := by
  cases e with
  | malformed => trivial
  | overlong e =>
    obtain ⟨run, hrun, hlong⟩ := h
    exact ⟨run, hrun.trans hs.isInfix, hlong⟩
  | tooDeep container => exact Nat.lt_of_lt_of_le h hs.sublist.countP_le
  | unpaired => exact List.IsInfix.trans h hs.isInfix

namespace Sound

variable {α β : Type} {P : α → Prop} {room : Nat} {part text : Text} {r : Read α}

theorem of_suffix (h : Sound P room part r) (hs : part <:+ text) : Sound P room text r := by
  rcases r with e | ⟨a, rest⟩
  · exact Explains.of_suffix h hs
  · exact ⟨h.1.trans hs, h.2⟩

theorem map {Q : β → Prop} {f : α → β} (h : Sound P room text r) (hf : ∀ a, P a → Q (f a)) :
    Sound Q room text (r.map fun (a, rest) => (f a, rest)) := by
  rcases r with e | ⟨a, rest⟩
  · exact h
  · exact ⟨h.1, hf a h.2⟩

/-- One container more may be open where a bracket opens it. -/
theorem of_bracket (h : Sound P room text r) {c : Char} (hc : c = '[' ∨ c = '\x7b') :
    Sound P (room + 1) (c :: text) r := by
  rcases r with e | ⟨a, rest⟩
  · cases e with
    | malformed => trivial
    | overlong e =>
      obtain ⟨run, hrun, hlong⟩ := h
      exact ⟨run, hrun.trans (List.suffix_cons c text).isInfix, hlong⟩
    | tooDeep container =>
      have hcount : brackets (c :: text) = brackets text + 1 :=
        List.countP_cons_of_pos (by rcases hc with rfl | rfl <;> decide)
      change room + 1 < brackets (c :: text)
      rw [hcount]
      exact Nat.succ_lt_succ h
    | unpaired => exact List.IsInfix.trans h (List.suffix_cons c text).isInfix
  · exact ⟨h.1.trans (List.suffix_cons c text), h.2⟩

end Sound

/-! ## Strings and numbers -/

theorem suffix_of_skipBlanks (text : Text) : skipBlanks text <:+ text := List.dropWhile_suffix _

theorem suffix_of_codeUnit? {text rest : Text} {unit : Nat}
    (h : codeUnit? text = some (unit, rest)) : rest <:+ text := by
  unfold codeUnit? at h
  split at h
  · rename_i a b c d tail
    simp only [Option.bind_eq_bind, Option.bind_eq_some_iff, Option.some.injEq,
      Prod.mk.injEq] at h
    obtain ⟨_, -, _, -, _, -, _, -, -, rfl⟩ := h
    exact ⟨[a, b, c, d], rfl⟩
  · cases h

theorem suffix_of_unicodeEscape? {text rest : Text} {c : Option Char}
    (h : unicodeEscape? text = some (c, rest)) : rest <:+ text := by
  unfold unicodeEscape? at h
  split at h
  · cases h
  · rename_i high tail hhigh
    have htail := suffix_of_codeUnit? hhigh
    split at h
    · rename_i more
      split at h
      · rename_i low end_ hlow
        split at h
        · simp only [Option.some.injEq, Prod.mk.injEq] at h
          exact h.2 ▸ (suffix_of_codeUnit? hlow).trans
            ((List.suffix_cons _ _).trans ((List.suffix_cons _ _).trans htail))
        · simp only [Option.some.injEq, Prod.mk.injEq] at h
          exact h.2 ▸ htail
      · simp only [Option.some.injEq, Prod.mk.injEq] at h
        exact h.2 ▸ htail
    · simp only [Option.some.injEq, Prod.mk.injEq] at h
      exact h.2 ▸ htail

theorem suffix_of_stringChar? {text rest : Text} {c : Option Char}
    (h : stringChar? text = some (c, rest)) : rest <:+ text := by
  unfold stringChar? at h
  split at h
  · exact (suffix_of_unicodeEscape? h).trans
      ((List.suffix_cons _ _).trans (List.suffix_cons _ _))
  · obtain ⟨d, -, heq⟩ := Option.map_eq_some_iff.1 h
    cases heq
    exact (List.suffix_cons _ _).trans (List.suffix_cons _ _)
  · cases h
  · cases h
  · split at h
    · cases h
    · cases h
      exact List.suffix_cons _ _
  · cases h

/-- What is no character of a string is an escape with the letter `u`. -/
theorem prefix_of_stringChar? {text rest : Text} (h : stringChar? text = some (none, rest)) :
    ['\\', 'u'] <+: text := by
  unfold stringChar? at h
  split at h
  · exact ⟨_, rfl⟩
  · obtain ⟨d, -, heq⟩ := Option.map_eq_some_iff.1 h
    cases heq
  · cases h
  · cases h
  · split at h <;> cases h
  · cases h

theorem sound_stringTail (room : Nat) : ∀ (fuel : Nat) (text : Text),
    Sound (fun _ => True) room text (stringTail fuel text)
  | 0, _ => trivial
  | fuel + 1, text => by
    unfold stringTail
    split
    · rename_i c rest h
      exact ((sound_stringTail room fuel rest).map fun _ _ => trivial).of_suffix
        (suffix_of_stringChar? h)
    · exact (prefix_of_stringChar? ‹_›).isInfix
    · split
      · exact ⟨List.suffix_cons _ _, trivial⟩
      · trivial

theorem spanDigits_spec {text digits rest : Text} (h : spanDigits text = (digits, rest)) :
    digits <+: text ∧ rest <:+ text ∧ Digits digits := by
  cases h
  exact ⟨List.takeWhile_prefix _, List.dropWhile_suffix _, fun c hc => List.mem_takeWhile_imp hc⟩

theorem integral?_spec {text digits rest : Text} (h : integral? text = some (digits, rest)) :
    digits <+: text ∧ rest <:+ text ∧ Digits digits ∧ digits ≠ [] := by
  unfold integral? at h
  split at h
  · cases h
    exact ⟨⟨_, rfl⟩, List.suffix_cons _ _, digits_zeros 1, by simp⟩
  · rcases hspan : spanDigits text with ⟨run, tail⟩
    simp only [hspan] at h
    split at h
    · cases h
    · rename_i hne
      cases h
      obtain ⟨hrun, htail, hdigits⟩ := spanDigits_spec hspan
      exact ⟨hrun, htail, hdigits, by simpa using hne⟩

theorem suffix_of_fraction? {text places rest : Text} (h : fraction? text = some (places, rest)) :
    rest <:+ text := by
  unfold fraction? at h
  split at h
  · rename_i tail
    rcases hspan : spanDigits tail with ⟨run, end_⟩
    simp only [hspan] at h
    split at h
    · cases h
    · cases h
      exact (spanDigits_spec hspan).2.1.trans (List.suffix_cons _ _)
  · cases h

theorem suffix_of_takeSign (text : Text) : (Text.takeSign text).2 <:+ text := by
  unfold Text.takeSign
  split
  · exact List.suffix_cons _ _
  · exact List.suffix_cons _ _
  · exact List.suffix_rfl

theorem suffix_of_exponent? {text rest : Text} {power : Int}
    (h : exponent? text = some (power, rest)) : rest <:+ text := by
  unfold exponent? at h
  split at h
  · rename_i e tail
    split at h
    · rcases hspan : spanDigits (Text.takeSign tail).2 with ⟨run, end_⟩
      simp only [hspan] at h
      split at h
      · cases h
      · cases h
        exact (spanDigits_spec hspan).2.1.trans
          ((suffix_of_takeSign tail).trans (List.suffix_cons _ _))
    · cases h
  · cases h

/-- A number is what stands behind its integral part. -/
theorem number_eq (text : Text) : ∃ negative body, body <:+ text
    ∧ number text = match integral? body with
      | none => .error .malformed
      | some (digits, rest) => afterIntegral negative digits rest := by
  by_cases h : ∃ tail, text = '-' :: tail
  · obtain ⟨tail, rfl⟩ := h
    exact ⟨true, tail, List.suffix_cons _ _, by rw [number]; rfl⟩
  · exact ⟨false, text, List.suffix_rfl, by
      rw [number]
      · rfl
      · exact fun tail htail => h ⟨tail, htail⟩⟩

theorem sound_afterIntegral (room : Nat) (negative : Bool) {digits rest text : Text}
    (hne : digits ≠ []) (hdigits : Digits digits) (hpart : digits <:+: text) (hrest : rest <:+ text) :
    Sound (Legible room) room text (afterIntegral negative digits rest) := by
  have hdouble : ∀ {n : Nat} {power : Int},
      Legible room (.double (.ofDecimal negative n power)) := fun {n power} =>
    .double (Double.canonical_ofDecimal negative n power)
  unfold afterIntegral
  split
  · by_cases hlong : digits.length ≤ maxDigits
    · simp only [Text.readDigits, if_pos hlong]
      refine ⟨hrest, .int ?_⟩
      have habs : (if negative then -(digitsValue digits : Int) else digitsValue digits).natAbs
          = digitsValue digits := by split <;> omega
      rw [habs]
      exact (Text.length_ofNat_digitsValue hne).trans hlong
    · simp only [Text.readDigits, if_neg hlong]
      exact ⟨digits, hpart, hdigits, Nat.lt_of_not_le hlong, rfl⟩
  · rename_i hpower
    exact ⟨(suffix_of_exponent? hpower).trans hrest, hdouble⟩
  · rename_i places tail hplaces
    have htail := (suffix_of_fraction? hplaces).trans hrest
    simp only []
    split
    · exact ⟨htail, hdouble⟩
    · rename_i hpower
      exact ⟨(suffix_of_exponent? hpower).trans htail, hdouble⟩

theorem sound_number (room : Nat) (text : Text) : Sound (Legible room) room text (number text) := by
  obtain ⟨negative, body, hbody, heq⟩ := number_eq text
  rw [heq]
  split
  · trivial
  · rename_i digits rest hintegral
    obtain ⟨hpart, hrest, hdigits, hne⟩ := integral?_spec hintegral
    exact sound_afterIntegral room negative hne hdigits (hpart.isInfix.trans hbody.isInfix)
      (hrest.trans hbody)

theorem sound_scalar (room : Nat) (text : Text) : Sound (Legible room) room text (scalar text) := by
  unfold scalar
  split
  · rename_i found hfound
    obtain ⟨word, hword, hmap⟩ := List.exists_of_findSome?_eq_some hfound
    obtain ⟨rest, hafter, rfl⟩ := Option.map_eq_some_iff.1 hmap
    have hlegible : ∀ word ∈ words, Legible room word.2 := by
      simp only [words, List.forall_mem_cons]
      exact ⟨.null, .bool _, .bool _, .double trivial, .double trivial, .double trivial, by simp⟩
    exact ⟨⟨word.1, (Text.after?_eq_some_iff.1 hafter).symm⟩, hlegible word hword⟩
  · exact sound_number room text

/-! ## Values -/

theorem legible_ofFields {room : Nat} {fields : List (Text × Json)}
    (h : ∀ f ∈ fields, Legible room f.2) : Legible (room + 1) (ofFields fields) := by
  have hdistinct : Table.Distinct (Table.ofList fields).entries :=
    Table.distinct_insertAll Table.empty List.Pairwise.nil fields
  have hlegible : ∀ f ∈ (Table.ofList fields).entries, Legible room f.2 :=
    Table.forall_mem_insertAll Table.empty (by simp [Table.empty]) h
  exact .object hdistinct.nodup hlegible

/-- What the three readers give with some fuel. -/
structure SoundAt (fuel : Nat) : Prop where
  value : ∀ room text, Sound (Legible room) room text (Json.value fuel room text)
  items : ∀ room text, Sound (fun items => ∀ v ∈ items, Legible room v) room text
    (Json.items fuel room text)
  fields : ∀ room text, Sound (fun fields => ∀ f ∈ fields, Legible room f.2) room text
    (Json.fields fuel room text)

theorem SoundAt.value_succ {fuel : Nat} (h : SoundAt fuel) (room : Nat) (text : Text) :
    Sound (Legible room) room text (Json.value (fuel + 1) room text) := by
  unfold Json.value
  split
  · rename_i rest
    exact ((sound_stringTail room _ rest).map fun s _ => .string s).of_suffix
      (List.suffix_cons _ _)
  · exact List.countP_pos_iff.2 ⟨'[', by simp, rfl⟩
  · rename_i rest room
    have hblanks := suffix_of_skipBlanks rest
    split
    · rename_i tail heq
      exact ⟨((List.suffix_cons _ tail).trans (heq ▸ hblanks)).trans (List.suffix_cons _ _),
        .array (by simp)⟩
    · exact (((h.items room _).map fun xs hxs => .array hxs).of_suffix hblanks).of_bracket (.inl rfl)
  · exact List.countP_pos_iff.2 ⟨'\x7b', by simp, rfl⟩
  · rename_i rest room
    have hblanks := suffix_of_skipBlanks rest
    split
    · rename_i tail heq
      exact ⟨((List.suffix_cons _ tail).trans (heq ▸ hblanks)).trans (List.suffix_cons _ _),
        .object (by simp) (by simp)⟩
    · exact (((h.fields room _).map fun xs hxs => legible_ofFields hxs).of_suffix
        hblanks).of_bracket (.inr rfl)
  · exact sound_scalar room text

theorem SoundAt.items_succ {fuel : Nat} (h : SoundAt fuel) (room : Nat) (text : Text) :
    Sound (fun items => ∀ v ∈ items, Legible room v) room text (Json.items (fuel + 1) room text) := by
  have hvalue := h.value room text
  unfold Json.items
  split
  · rename_i e heq
    rw [heq] at hvalue
    exact hvalue
  · rename_i item rest heq
    rw [heq] at hvalue
    obtain ⟨hrest, hitem⟩ := hvalue
    have hblanks := (suffix_of_skipBlanks rest).trans hrest
    split
    · rename_i tail htail
      exact ⟨(List.suffix_cons _ tail).trans (htail ▸ hblanks), by simpa using hitem⟩
    · rename_i more hmore
      have hinner := (suffix_of_skipBlanks more).trans
        ((List.suffix_cons _ more).trans (hmore ▸ hblanks))
      exact ((h.items room _).map fun xs hxs => List.forall_mem_cons.2 ⟨hitem, hxs⟩).of_suffix hinner
    · trivial

theorem SoundAt.fields_succ {fuel : Nat} (h : SoundAt fuel) (room : Nat) (text : Text) :
    Sound (fun fields => ∀ f ∈ fields, Legible room f.2) room text
      (Json.fields (fuel + 1) room text) := by
  unfold Json.fields
  split
  · rename_i quoted
    have hname := sound_stringTail room (quoted.length + 1) quoted
    split
    · rename_i e heq
      rw [heq] at hname
      exact Explains.of_suffix hname (List.suffix_cons _ _)
    · rename_i name rest heq
      rw [heq] at hname
      have hrest := hname.1.trans (List.suffix_cons '\x22' quoted)
      have hblanks := (suffix_of_skipBlanks rest).trans hrest
      split
      · rename_i more hmore
        have hinner := (suffix_of_skipBlanks more).trans
          ((List.suffix_cons _ more).trans (hmore ▸ hblanks))
        have hvalue := (h.value room (skipBlanks more)).of_suffix hinner
        split
        · rename_i e heq
          rw [heq] at hvalue
          exact hvalue
        · rename_i item rest' heq
          rw [heq] at hvalue
          obtain ⟨hrest', hitem⟩ := hvalue
          have hblanks' := (suffix_of_skipBlanks rest').trans hrest'
          split
          · rename_i tail htail
            exact ⟨(List.suffix_cons _ tail).trans (htail ▸ hblanks'), by simpa using hitem⟩
          · rename_i next hnext
            have hlater := (suffix_of_skipBlanks next).trans
              ((List.suffix_cons _ next).trans (hnext ▸ hblanks'))
            refine ((h.fields room _).map fun xs hxs => ?_).of_suffix hlater
            intro f hf
            rcases List.mem_cons.1 hf with rfl | hf
            · exact hitem
            · exact hxs f hf
          · trivial
      · trivial
  · trivial

theorem sound_value : ∀ fuel, SoundAt fuel
  | 0 => ⟨fun _ _ => trivial, fun _ _ => trivial, fun _ _ => trivial⟩
  | fuel + 1 =>
    have h := sound_value fuel
    ⟨h.value_succ, h.items_succ, h.fields_succ⟩

theorem legible_of_parse {limit : Nat} {text : Text} {v : Json} (h : parse limit text = .ok v) :
    Legible limit v := by
  have hvalue := (sound_value (2 * text.length + 2)).value limit (skipBlanks text)
  unfold parse at h
  split at h
  · cases h
  · rename_i heq
    rw [heq] at hvalue
    split at h
    · cases h
      exact hvalue.2
    · cases h

/-- Where a text is refused for another reason than the grammar it has a run of too many digits,
more brackets than may be open at once, or an escape with the letter `u`. -/
theorem explains_of_parse {limit : Nat} {text : Text} {e : ParseError}
    (h : parse limit text = .error e) : Explains limit text e := by
  have hvalue := ((sound_value (2 * text.length + 2)).value limit (skipBlanks text)).of_suffix
    (suffix_of_skipBlanks text)
  unfold parse at h
  split at h
  · rename_i heq
    rw [heq] at hvalue
    cases h
    exact hvalue
  · split at h
    · cases h
    · cases h
      trivial

/-! ## Writing -/

theorem itemFault?_eq_none_iff {room : Nat} : ∀ {items : List Json},
    itemFault? room items = none ↔ ∀ v ∈ items, fault? room v = none
  | [] => by simp [itemFault?]
  | item :: items => by
    rw [itemFault?, List.forall_mem_cons, ← itemFault?_eq_none_iff]
    rcases fault? room item <;> simp

theorem fieldFault?_eq_none_iff {room : Nat} : ∀ {fields : List (Text × Json)},
    fieldFault? room fields = none ↔ ∀ f ∈ fields, fault? room f.2 = none
  | [] => by simp [fieldFault?]
  | (name, item) :: fields => by
    rw [fieldFault?, List.forall_mem_cons, ← fieldFault?_eq_none_iff]
    rcases fault? room item <;> simp

/-- A value that can be read where `room` containers may be opened can be written there. -/
theorem fault?_of_legible {room : Nat} {v : Json} (h : Legible room v) : fault? room v = none := by
  induction h with
  | int short => rw [fault?, if_pos short]
  | array _ ih => rw [fault?, itemFault?_eq_none_iff.2 ih]
  | object _ _ ih => rw [fault?, fieldFault?_eq_none_iff.2 ih]
  | null | bool | double | string => rw [fault?]

/-- What can be read can also be read where more containers may be opened. -/
theorem Legible.mono {room : Nat} {v : Json} (h : Legible room v) :
    ∀ {more : Nat}, room ≤ more → Legible more v := by
  induction h with
  | null => exact fun _ => .null
  | bool b => exact fun _ => .bool b
  | int short => exact fun _ => .int short
  | double canonical => exact fun _ => .double canonical
  | string s => exact fun _ => .string s
  | array _ ih =>
    rintro (_ | more) hle
    · omega
    · exact .array fun v hv => ih v hv (Nat.le_of_succ_le_succ hle)
  | object nodup _ ih =>
    rintro (_ | more) hle
    · omega
    · exact .object nodup fun f hf => ih f hf (Nat.le_of_succ_le_succ hle)

end Dialogue.Json
