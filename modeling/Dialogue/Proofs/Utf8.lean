import Dialogue.Encoding.Fallback
import Mathlib.Data.List.Basic

/-!
# A text is read back from its bytes

The first byte of a character tells how many follow (`next_encodeChar`), and a character is only
read from the bytes that it is written with (`eq_append_of_next`). So bytes are read as a text
exactly if they are the ones of that text (`decode?_eq_some_iff`). The encodings are tried with this
one in front, so a file has the text that was written to it, but for a mark at its start
(`read_encode`).
-/

namespace Dialogue

theorem mapM_eq_some_iff {α β : Type} {read? : α → Option β} :
    ∀ {items : List α} {results : List β},
      items.mapM read? = some results ↔ items.map read? = results.map some
  | [], results => by
    rw [List.mapM_nil, List.map_nil, eq_comm (a := []), List.map_eq_nil_iff]
    exact ⟨fun h => (Option.some.inj h).symm, fun h => h ▸ rfl⟩
  | a :: items, results => by
    have hcons : (a :: items).mapM read?
        = (read? a).bind fun b => (items.mapM read?).map (b :: ·) := by
      rw [List.mapM_cons]
      rcases read? a with _ | b
      · rfl
      · rcases items.mapM read? with _ | rest <;> rfl
    rw [hcons, Option.bind_eq_some_iff]
    have ih : ∀ rest, items.mapM read? = some rest ↔ items.map read? = rest.map some :=
      fun _ => mapM_eq_some_iff
    simp only [Option.map_eq_some_iff, ih]
    cases results with
    | nil => simp
    | cons b results => simp

namespace Utf8

theorem toNat_ofNat {n : Nat} (h : n < 256) : (UInt8.ofNat n).toNat = n := by
  rw [UInt8.toNat_ofNat']
  exact Nat.mod_eq_of_lt h

theorem char_bounds (c : Char) : c.toNat < 0xD800 ∨ 0xDFFF < c.toNat ∧ c.toNat < 0x110000 := by
  rcases c.valid with h | h
  · exact .inl h
  · exact .inr h

theorem toNat_ofNat_of_valid {n : Nat} (h : n < 0xD800 ∨ 0xDFFF < n ∧ n < 0x110000) :
    (Char.ofNat n).toNat = n := by
  have hvalid : n.isValidChar := h
  rw [Char.ofNat, dif_pos hvalid]
  rfl

/-- The bytes that follow the first one continue its bits. -/
theorem follow_cons {bits low high following b : Nat} {rest : Bytes} (hb : b < 256)
    (hlow : low ≤ b) (hhigh : b ≤ high) :
    follow bits low high (following + 1) (.ofNat b :: rest)
      = follow (64 * bits + (b - 0x80)) 0x80 0xBF following rest := by
  rw [follow, toNat_ofNat hb, if_pos ⟨hlow, hhigh⟩]

theorem next_of_lead {b bits following low high n : Nat} {bytes rest : Bytes} (hb : b < 256)
    (hlead : lead? b = some ⟨bits, following, low, high⟩)
    (hfollow : follow bits low high following bytes = (some n, rest)) :
    next (.ofNat b) bytes = (some (Char.ofNat n), rest) := by
  rw [next, toNat_ofNat hb, hlead]
  simp only [hfollow, Option.map_some]

theorem next_encodeChar (c : Char) (rest : Bytes) : ∃ b tail, encodeChar c = b :: tail
    ∧ next b (tail ++ rest) = (some c, rest) := by
  have hbounds := char_bounds c
  have hchar := Char.ofNat_toNat c
  simp only [encodeChar]
  generalize c.toNat = n at hbounds hchar
  split_ifs with h1 h2 h3
  · have hlead : lead? n = some ⟨n, 0, 0x80, 0xBF⟩ := by rw [lead?, if_pos h1]
    exact ⟨_, [], rfl, hchar ▸ next_of_lead (by omega) hlead rfl⟩
  · have hlead : lead? (0xC0 + n / 64) = some ⟨n / 64, 1, 0x80, 0xBF⟩ := by
      unfold lead?
      rw [if_neg (by omega), if_neg (by omega), if_pos (by omega), Nat.add_sub_cancel_left]
    have hbits : 64 * (n / 64) + (0x80 + n % 64 - 0x80) = n := by omega
    refine ⟨_, [_], rfl, hchar ▸ next_of_lead (by omega) hlead ?_⟩
    rw [List.singleton_append, follow_cons (by omega) (by omega) (by omega), hbits, follow]
  · have hlead : lead? (0xE0 + n / 4096) = some ⟨n / 4096, 2,
        if 0xE0 + n / 4096 = 0xE0 then 0xA0 else 0x80,
        if 0xE0 + n / 4096 = 0xED then 0x9F else 0xBF⟩ := by
      unfold lead?
      rw [if_neg (by omega), if_neg (by omega), if_neg (by omega), if_pos (by omega),
        Nat.add_sub_cancel_left]
    have hbits : 64 * (64 * (n / 4096) + (0x80 + n / 64 % 64 - 0x80)) + (0x80 + n % 64 - 0x80)
        = n := by omega
    refine ⟨_, [_, _], rfl, hchar ▸ next_of_lead (by omega) hlead ?_⟩
    rw [List.cons_append, List.singleton_append,
      follow_cons (by omega) (by split <;> omega) (by split <;> omega),
      follow_cons (by omega) (by omega) (by omega), hbits, follow]
  · have hlead : lead? (0xF0 + n / 262144) = some ⟨n / 262144, 3,
        if 0xF0 + n / 262144 = 0xF0 then 0x90 else 0x80,
        if 0xF0 + n / 262144 = 0xF4 then 0x8F else 0xBF⟩ := by
      unfold lead?
      rw [if_neg (by omega), if_neg (by omega), if_neg (by omega), if_neg (by omega),
        if_pos (by omega), Nat.add_sub_cancel_left]
    have hbits : 64 * (64 * (64 * (n / 262144) + (0x80 + n / 4096 % 64 - 0x80))
        + (0x80 + n / 64 % 64 - 0x80)) + (0x80 + n % 64 - 0x80) = n := by omega
    refine ⟨_, [_, _, _], rfl, hchar ▸ next_of_lead (by omega) hlead ?_⟩
    rw [List.cons_append, List.cons_append, List.singleton_append,
      follow_cons (by omega) (by split <;> omega) (by split <;> omega),
      follow_cons (by omega) (by omega) (by omega), follow_cons (by omega) (by omega) (by omega),
      hbits, follow]

theorem units_encode : ∀ text : Text, units (encode text) = text.map some
  | [] => by rw [encode, List.flatMap_nil, units]; rfl
  | c :: text => by
    obtain ⟨b, tail, hencode, hnext⟩ := next_encodeChar c (encode text)
    have hbytes : encode (c :: text) = b :: (tail ++ encode text) := by
      rw [encode, List.flatMap_cons, hencode]
      rfl
    rw [hbytes, units, hnext, units_encode text]
    rfl

/-- The bytes that follow the first one are read one by one. -/
theorem follow_eq_some_iff {bits low high following n : Nat} {bytes rest : Bytes} :
    follow bits low high (following + 1) bytes = (some n, rest)
      ↔ ∃ b more, bytes = .ofNat b :: more ∧ b < 256 ∧ low ≤ b ∧ b ≤ high
        ∧ follow (64 * bits + (b - 0x80)) 0x80 0xBF following more = (some n, rest) := by
  constructor
  · intro h
    rcases bytes with _ | ⟨b, more⟩
    · simp [follow] at h
    · rw [follow] at h
      split at h
      · rename_i hrange
        exact ⟨b.toNat, more, by rw [UInt8.ofNat_toNat], b.toNat_lt, hrange.1, hrange.2, h⟩
      · simp at h
  · rintro ⟨b, more, rfl, hb, hlow, hhigh, h⟩
    rw [follow_cons hb hlow hhigh, h]

/-- The four kinds of first bytes. The next byte is kept from making a character that fits into
fewer bytes, a surrogate, or one beyond the last code point. -/
theorem lead?_eq_some {b : Nat} {lead : Lead} (h : lead? b = some lead) :
    (b < 0x80 ∧ lead = ⟨b, 0, 0x80, 0xBF⟩)
      ∨ (0xC2 ≤ b ∧ b < 0xE0 ∧ lead = ⟨b - 0xC0, 1, 0x80, 0xBF⟩)
      ∨ (0xE0 ≤ b ∧ b < 0xF0 ∧ ∃ low high, lead = ⟨b - 0xE0, 2, low, high⟩ ∧ 0x80 ≤ low
        ∧ high ≤ 0xBF ∧ (b = 0xE0 → 0xA0 ≤ low) ∧ (b = 0xED → high ≤ 0x9F))
      ∨ (0xF0 ≤ b ∧ b < 0xF5 ∧ ∃ low high, lead = ⟨b - 0xF0, 3, low, high⟩ ∧ 0x80 ≤ low
        ∧ high ≤ 0xBF ∧ (b = 0xF0 → 0x90 ≤ low) ∧ (b = 0xF4 → high ≤ 0x8F)) := by
  unfold lead? at h
  by_cases h1 : b < 0x80
  · rw [if_pos h1] at h
    exact .inl ⟨h1, (Option.some.inj h).symm⟩
  by_cases h2 : b < 0xC2
  · rw [if_neg h1, if_pos h2] at h
    cases h
  by_cases h3 : b < 0xE0
  · rw [if_neg h1, if_neg h2, if_pos h3] at h
    exact .inr (.inl ⟨by omega, h3, (Option.some.inj h).symm⟩)
  by_cases h4 : b < 0xF0
  · rw [if_neg h1, if_neg h2, if_neg h3, if_pos h4] at h
    refine .inr (.inr (.inl ⟨by omega, h4, _, _, (Option.some.inj h).symm, ?_⟩))
    split <;> split <;> omega
  by_cases h5 : b < 0xF5
  · rw [if_neg h1, if_neg h2, if_neg h3, if_neg h4, if_pos h5] at h
    refine .inr (.inr (.inr ⟨by omega, h5, _, _, (Option.some.inj h).symm, ?_⟩))
    split <;> split <;> omega
  · rw [if_neg h1, if_neg h2, if_neg h3, if_neg h4, if_neg h5] at h
    cases h

/-- A character that is read is written with the bytes that it was read from. -/
theorem eq_append_of_next {b : UInt8} {c : Char} {bytes rest : Bytes}
    (h : next b bytes = (some c, rest)) : b :: bytes = encodeChar c ++ rest := by
  obtain ⟨b, hb, rfl⟩ : ∃ n, n < 256 ∧ b = .ofNat n := ⟨b.toNat, b.toNat_lt, by simp⟩
  rw [next, toNat_ofNat hb] at h
  rcases hlead : lead? b with _ | lead
  · simp [hlead] at h
  simp only [hlead, Prod.mk.injEq, Option.map_eq_some_iff] at h
  obtain ⟨⟨n, hnumber, rfl⟩, hrest⟩ := h
  have hfollow : follow lead.bits lead.low lead.high lead.following bytes = (some n, rest) :=
    Prod.ext hnumber hrest
  clear hnumber hrest
  rcases lead?_eq_some hlead with ⟨hb, heq⟩ | ⟨hmin, hmax, heq⟩
      | ⟨hmin, hmax, low, high, heq, hlow, hhigh, hshort, hend⟩
      | ⟨hmin, hmax, low, high, heq, hlow, hhigh, hshort, hend⟩ <;>
    rw [heq] at hfollow <;> dsimp only at hfollow
  · simp only [follow, Prod.mk.injEq, Option.some.injEq] at hfollow
    obtain ⟨rfl, rfl⟩ := hfollow
    rw [encodeChar, toNat_ofNat_of_valid (by omega), if_pos hb]
    rfl
  · obtain ⟨b1, _, rfl, hb1, hlow1, hhigh1, hfollow⟩ := follow_eq_some_iff.1 hfollow
    simp only [follow, Prod.mk.injEq, Option.some.injEq] at hfollow
    obtain ⟨hn, rfl⟩ := hfollow
    have hfirst : 0xC0 + n / 64 = b := by omega
    have hlast : 0x80 + n % 64 = b1 := by omega
    rw [encodeChar, toNat_ofNat_of_valid (by omega), if_neg (by omega), if_pos (by omega), hfirst,
      hlast]
    rfl
  · obtain ⟨b1, _, rfl, hb1, hlow1, hhigh1, hfollow⟩ := follow_eq_some_iff.1 hfollow
    obtain ⟨b2, _, rfl, hb2, hlow2, hhigh2, hfollow⟩ := follow_eq_some_iff.1 hfollow
    simp only [follow, Prod.mk.injEq, Option.some.injEq] at hfollow
    obtain ⟨hn, rfl⟩ := hfollow
    have hfirst : 0xE0 + n / 4096 = b := by omega
    have hsecond : 0x80 + n / 64 % 64 = b1 := by omega
    have hlast : 0x80 + n % 64 = b2 := by omega
    rw [encodeChar, toNat_ofNat_of_valid (by omega), if_neg (by omega), if_neg (by omega),
      if_pos (by omega), hfirst, hsecond, hlast]
    rfl
  · obtain ⟨b1, _, rfl, hb1, hlow1, hhigh1, hfollow⟩ := follow_eq_some_iff.1 hfollow
    obtain ⟨b2, _, rfl, hb2, hlow2, hhigh2, hfollow⟩ := follow_eq_some_iff.1 hfollow
    obtain ⟨b3, _, rfl, hb3, hlow3, hhigh3, hfollow⟩ := follow_eq_some_iff.1 hfollow
    simp only [follow, Prod.mk.injEq, Option.some.injEq] at hfollow
    obtain ⟨hn, rfl⟩ := hfollow
    have hfirst : 0xF0 + n / 262144 = b := by omega
    have hsecond : 0x80 + n / 4096 % 64 = b1 := by omega
    have hthird : 0x80 + n / 64 % 64 = b2 := by omega
    have hlast : 0x80 + n % 64 = b3 := by omega
    rw [encodeChar, toNat_ofNat_of_valid (by omega), if_neg (by omega), if_neg (by omega),
      if_neg (by omega), hfirst, hsecond, hthird, hlast]
    rfl

theorem encode_of_units : ∀ {bytes : Bytes} {text : Text}, units bytes = text.map some →
    bytes = encode text
  | [], text, h => by
    rw [units] at h
    rw [List.map_eq_nil_iff.1 h.symm]
    rfl
  | b :: bytes, [], h => by
    rw [units] at h
    cases h
  | b :: bytes, c :: text, h => by
    rw [units] at h
    obtain ⟨hchar, hunits⟩ := List.cons.inj h
    have := next_length b bytes
    have hrest := encode_of_units hunits
    rw [eq_append_of_next (Prod.ext hchar rfl), encode, List.flatMap_cons, ← encode, ← hrest]
termination_by bytes => bytes.length

/-- Bytes are read as a text exactly if they are the ones that it is written with. -/
theorem decode?_eq_some_iff {bytes : Bytes} {text : Text} :
    decode? bytes = some text ↔ bytes = encode text := by
  rw [decode?, mapM_eq_some_iff, List.map_id]
  exact ⟨encode_of_units, fun h => h ▸ units_encode text⟩

theorem decode?_encode (text : Text) : decode? (encode text) = some text :=
  decode?_eq_some_iff.2 rfl

theorem decode?_eq_none_iff {bytes : Bytes} :
    decode? bytes = none ↔ ∀ text, bytes ≠ encode text := by
  simp only [Option.eq_none_iff_forall_ne_some, ne_eq, decode?_eq_some_iff]

end Utf8

theorem Encoding.read_encode (text : Text) :
    Encoding.read (Utf8.encode text) = Encoding.dropMark text := by
  have hfirst : Encoding.decode? .utf8 (Utf8.encode text) = some text := Utf8.decode?_encode text
  simp only [read, readWith?, fallback, List.findSome?_cons, hfirst, Option.map_some,
    Option.getD_some]

end Dialogue
