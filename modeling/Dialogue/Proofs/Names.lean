import Dialogue.Proofs.Definitions

/-!
# Names of commands

Two names are one if they have one mark (`sameName_iff`): a text, or the integer that a number or a
truth value is, or else the number itself. A table of commands keeps each of them under a name that
is its own, so it is the table of its own commands (`insertAll_values`).
-/

namespace Dialogue

namespace Json.Double

theorem toInt?_eq_some {negative : Bool} {mantissa : Nat} {exponent n : Int}
    (h : toInt? (.finite negative mantissa exponent) = some n) :
    ∃ size : Nat, n = (if negative then -(size : Int) else size)
      ∧ (size : ℚ) = mantissa * (2 : ℚ) ^ exponent := by
  have hpos := scale_pos zero_lt_two mantissa zero_lt_one exponent
  have hvalue := ratio_scale zero_lt_two mantissa 1 exponent
  simp only [toInt?] at h
  split at h
  · rename_i hmod
    have hsize := Nat.div_mul_cancel (Nat.dvd_of_mod_eq_zero hmod)
    refine ⟨_, (Option.some.inj h).symm, ?_⟩
    simp only [ratio, Nat.cast_one, div_one, Nat.cast_ofNat] at hvalue
    rw [← hvalue, eq_div_iff (by positivity)]
    exact_mod_cast hsize
  · cases h

/-- A canonical number that is an integer is what the integer rounds to. -/
theorem eq_ofRatio_of_toInt? {negative : Bool} {mantissa : Nat} {exponent n : Int}
    (hc : Canonical (.finite negative mantissa exponent))
    (h : toInt? (.finite negative mantissa exponent) = some n) (hn : n ≠ 0) :
    Double.finite negative mantissa exponent = ofRatio (decide (n < 0)) n.natAbs 1 := by
  obtain ⟨size, rfl, hsize⟩ := toInt?_eq_some h
  have hpos : 0 < size := Nat.pos_of_ne_zero fun hzero => hn (by simp [hzero])
  have hratio : ratio (size, 1) = mantissa * (2 : ℚ) ^ exponent := by
    rw [← hsize, ratio, Nat.cast_one, div_one]
  have hsign : decide ((if negative then -(size : Int) else size) < 0) = negative := by
    cases negative <;> simp [hpos]
  have habs : (if negative then -(size : Int) else size).natAbs = size := by
    cases negative <;> simp
  rw [hsign, habs, ofRatio_of_canonical hc hpos zero_lt_one hratio]

theorem mantissa_eq_zero {negative : Bool} {mantissa : Nat} {exponent : Int}
    (h : toInt? (.finite negative mantissa exponent) = some 0) : mantissa = 0 := by
  obtain ⟨size, hn, hsize⟩ := toInt?_eq_some h
  have hzero : size = 0 := by split at hn <;> omega
  have hne : (2 : ℚ) ^ exponent ≠ 0 := by positivity
  rw [hzero, Nat.cast_zero, eq_comm, mul_eq_zero_iff_right hne] at hsize
  exact_mod_cast hsize

theorem toInt?_of_isZero {d : Double} (h : d.isZero = true) : d.toInt? = some 0 := by
  cases d with
  | finite negative mantissa exponent =>
    obtain rfl : mantissa = 0 := by simpa [isZero] using h
    cases exponent <;> simp [toInt?, scale]
  | infinite negative => cases h
  | nan => cases h

theorem same_of_toInt? {d e : Double} (hd : d.Canonical) (he : e.Canonical) {n : Int}
    (h : d.toInt? = some n) (h' : e.toInt? = some n) : d.same e = true := by
  cases d with
  | infinite _ => cases h
  | nan => cases h
  | finite negative mantissa exponent =>
    cases e with
    | infinite _ => cases h'
    | nan => cases h'
    | finite negative' mantissa' exponent' =>
      by_cases hn : n = 0
      · subst hn
        simp [same, isZero, mantissa_eq_zero h, mantissa_eq_zero h']
      · rw [eq_ofRatio_of_toInt? hd h hn, eq_ofRatio_of_toInt? he h' hn]
        simp [same]

/-- Canonical numbers are the same if they are the same integer, or neither is one and they are one
number. -/
theorem same_iff {d e : Double} (hd : d.Canonical) (he : e.Canonical) :
    d.same e = true ↔ d.toInt? = e.toInt? ∧ (d.toInt? = none → d = e) := by
  constructor
  · intro h
    rcases Bool.or_eq_true_iff.1 h with heq | hzero
    · obtain rfl := eq_of_beq heq
      exact ⟨rfl, fun _ => rfl⟩
    · obtain ⟨hdz, hez⟩ := Bool.and_eq_true_iff.1 hzero
      rw [toInt?_of_isZero hdz, toInt?_of_isZero hez]
      exact ⟨rfl, fun hnone => by cases hnone⟩
  · rintro ⟨hint, hnone⟩
    rcases hd' : d.toInt? with _ | n
    · simp [same, hnone hd']
    · exact same_of_toInt? hd he hd' (hint ▸ hd')

end Json.Double

namespace Command

/-- A value that is the name of a command and has no more than one way to be read. -/
inductive Nameable : Json → Prop
  | string (s : Text) : Nameable (.string s)
  | int (n : Int) : Nameable (.int n)
  | bool (b : Bool) : Nameable (.bool b)
  | double {d : Json.Double} (canonical : d.Canonical) : Nameable (.double d)

/-- What a name is compared by. -/
inductive Mark
  | text (s : Text)
  | integer (n : Int)
  | number (d : Json.Double)

namespace Mark

def ofDouble (d : Json.Double) : Mark :=
  match d.toInt? with
  | some n => .integer n
  | none => .number d

theorem ofDouble_ne_text (d : Json.Double) (s : Text) : ofDouble d ≠ .text s := by
  unfold ofDouble
  split <;> simp

theorem ofDouble_eq_integer_iff {d : Json.Double} {n : Int} :
    ofDouble d = .integer n ↔ d.toInt? = some n := by
  unfold ofDouble
  split <;> simp_all

theorem ofDouble_eq_iff {d e : Json.Double} (hd : d.Canonical) (he : e.Canonical) :
    ofDouble d = ofDouble e ↔ d.same e = true := by
  rw [Json.Double.same_iff hd he]
  rcases hd' : d.toInt? with _ | n
  · rcases he' : e.toInt? with _ | m <;> simp [ofDouble, hd', he']
  · rw [ofDouble, hd', eq_comm, ofDouble_eq_integer_iff]
    simp [eq_comm]

end Mark

def markOf? : Json → Option Mark
  | .string s => some (.text s)
  | .double d => some (.ofDouble d)
  | v => (Ordinal.ofJson? v).map fun n => .integer n.value

theorem sameName_iff {a b : Json} (ha : Nameable a) (hb : Nameable b) :
    sameName a b = true ↔ markOf? a = markOf? b := by
  have hinteger : ∀ (d : Json.Double) (n : Int),
      Mark.integer n = .ofDouble d ↔ d.toInt? = some n := fun d n => by
    rw [eq_comm, Mark.ofDouble_eq_integer_iff]
  cases ha with
  | string s =>
    cases hb <;> simp [sameName, markOf?, Ordinal.ofJson?, Ne.symm (Mark.ofDouble_ne_text _ _)]
  | int n => cases hb <;> simp [sameName, markOf?, Ordinal.ofJson?, hinteger]
  | bool b => cases hb <;> simp [sameName, markOf?, Ordinal.ofJson?, hinteger]
  | double hd =>
    cases hb with
    | double he => simp [sameName, markOf?, Mark.ofDouble_eq_iff hd he]
    | _ => simp [sameName, markOf?, Ordinal.ofJson?, Mark.ofDouble_ne_text,
        Mark.ofDouble_eq_integer_iff]

/-- The commands of a table are kept under names that are their own. -/
def Owns (entries : List (Name × Command)) : Prop :=
  ∀ entry ∈ entries, Nameable entry.1.value ∧ Nameable entry.2.name
    ∧ markOf? entry.1.value = markOf? entry.2.name

theorem owns_insertInto {command : Command} (hname : Nameable command.name) :
    ∀ {entries : List (Name × Command)}, Owns entries →
      Owns (Table.insertInto ⟨command.name⟩ command entries)
  | [], _ => by simpa [Owns, Table.insertInto] using hname
  | (key, old) :: entries, h => by
    obtain ⟨hold, hentries⟩ := List.forall_mem_cons.1 h
    rw [Table.insertInto]
    split
    · rename_i heq
      exact List.forall_mem_cons.2
        ⟨⟨hold.1, hname, (sameName_iff hold.1 hname).1 heq⟩, hentries⟩
    · exact List.forall_mem_cons.2 ⟨hold, owns_insertInto hname hentries⟩

theorem owns_insertAll : ∀ {commands : List Command} {table : Table Name Command},
    (∀ command ∈ commands, Nameable command.name) → Owns table.entries →
      Owns (table.insertAll (commands.map fun command => (⟨command.name⟩, command))).entries
  | [], _, _, h => h
  | command :: commands, table, hnames, h => by
    obtain ⟨hname, hrest⟩ := List.forall_mem_cons.1 hnames
    have hstep : Owns (table.insert ⟨command.name⟩ command).entries := owns_insertInto hname h
    change Owns ((table.insert ⟨command.name⟩ command).insertAll
      (commands.map fun command => (⟨command.name⟩, command))).entries
    exact owns_insertAll hrest hstep

end Command

namespace Schema

open Command (Nameable Owns markOf? sameName_iff)

/-- The table of the commands of a table has them under names of the same marks, in the same
order. -/
theorem tableOf_values {commands : List Command}
    (hnames : ∀ command ∈ commands, Nameable command.name) :
    (tableOf (tableOf commands).values).values = (tableOf commands).values
      ∧ List.Forall₂ (fun a b => (a == b) = true) (tableOf (tableOf commands).values).keys
        (tableOf commands).keys := by
  have howns : Owns (tableOf commands).entries := Command.owns_insertAll hnames (by simp [Owns, Table.empty])
  have hdistinct : Table.Distinct (tableOf commands).entries :=
    Table.distinct_insertAll Table.empty List.Pairwise.nil _
  have hpairs : (tableOf commands).values.map (fun command => ((⟨command.name⟩ : Command.Name), command))
      = (tableOf commands).entries.map fun entry => (⟨entry.2.name⟩, entry.2) := by
    simp [Table.values]
  have hown : Table.Distinct
      ((tableOf commands).values.map fun command => ((⟨command.name⟩ : Command.Name), command)) := by
    rw [hpairs]
    refine List.pairwise_map.2 (hdistinct.imp_of_mem fun ha hb hne => ?_)
    obtain ⟨hkey, hname, hmark⟩ := howns _ ha
    obtain ⟨hkey', hname', hmark'⟩ := howns _ hb
    refine Bool.eq_false_iff.2 fun hsame => ?_
    have hnames := (sameName_iff hname hname').1 hsame
    have hkeys : Command.sameName _ _ = true :=
      (sameName_iff hkey hkey').2 (hmark.trans (hnames.trans hmark'.symm))
    exact Bool.false_ne_true (hne.symm.trans hkeys)
  have hagain : (tableOf (tableOf commands).values).entries
      = (tableOf commands).entries.map fun entry => (⟨entry.2.name⟩, entry.2) := by
    rw [← hpairs]
    exact Table.insertAll_of_distinct hown
  constructor
  · rw [Table.values, hagain, List.map_map]
    rfl
  · rw [Table.keys, hagain, Table.keys, List.map_map, List.forall₂_map_left_iff,
      List.forall₂_map_right_iff, List.forall₂_same]
    intro entry hentry
    obtain ⟨hkey, hname, hmark⟩ := howns entry hentry
    exact (sameName_iff hname hkey).2 hmark.symm

end Schema

end Dialogue
