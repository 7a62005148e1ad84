import Dialogue.Proofs.Arguments
import Dialogue.Proofs.Digits
import Dialogue.Trace.Writer

/-!
# Lines on which it cannot be told who writes

The argument of a parameter cannot be told where its index counts past the first argument or where
the argument starts with too many digits (`Fault`). A line is read from left to right and its calls
parameter by parameter, so it is the first such parameter that a line stumbles over
(`writer?_eq_error_iff`). No line does if parameters count from the start and runs of digits are
short (`not_stumbles`).
-/

namespace Dialogue

namespace Trace

open Text

/-- The argument that an index stands for, counted from the first one or back from the end. -/
def ArgumentAt (arguments : List Text) (index : Int) (argument : Text) : Prop :=
  ∃ n : Nat, arguments[n]? = some argument ∧ (index = n ∨ index = (n : Int) - arguments.length)

/-- Why the argument of a parameter cannot be told. -/
inductive Fault (arguments : List Text) (param : Command.Param) : Error → Prop
  | noSuchArgument (past : param.index.value < -(arguments.length : Int))
      (fits : -(maxFromEnd : Int) ≤ param.index.value) : Fault arguments param .noSuchArgument
  | noIndex (past : param.index.value < -(arguments.length : Int))
      (tooFar : param.index.value < -(maxFromEnd : Int)) : Fault arguments param .noIndex
  | overlong {argument : Text} (stands : ArgumentAt arguments param.index.value argument)
      (long : maxDigits < (leadingDigits argument).length) :
      Fault arguments param (.overlong ⟨(leadingDigits argument).length⟩)

theorem argument?_eq_some_iff {arguments : List Text} {index : Int} {argument : Text} :
    argument? arguments index = .ok (some argument) ↔ ArgumentAt arguments index argument := by
  have hbound : ∀ {n : Nat}, arguments[n]? = some argument → n < arguments.length :=
    fun h => (List.getElem?_eq_some_iff.1 h).1
  cases index with
  | ofNat k =>
    simp only [argument?, Except.ok.injEq, ArgumentAt, Int.ofNat_eq_natCast]
    refine ⟨fun h => ⟨k, h, .inl rfl⟩, fun ⟨n, hn, hk⟩ => ?_⟩
    have := hbound hn
    obtain rfl : k = n := by omega
    exact hn
  | negSucc k =>
    simp only [argument?, ArgumentAt, Int.negSucc_eq]
    split_ifs with hlt hfits
    · simp only [Except.ok.injEq]
      refine ⟨fun h => ⟨_, h, .inr (by omega)⟩, fun ⟨n, hn, hk⟩ => ?_⟩
      obtain rfl : n = arguments.length - (k + 1) := by
        have := hbound hn
        omega
      exact hn
    · refine iff_of_false (by simp) fun ⟨n, hn, hk⟩ => ?_
      have := hbound hn
      omega
    · refine iff_of_false (by simp) fun ⟨n, hn, hk⟩ => ?_
      have := hbound hn
      omega

theorem argument?_eq_error_iff {arguments : List Text} {index : Int} {e : Error} :
    argument? arguments index = .error e ↔ index < -(arguments.length : Int)
      ∧ e = if -(maxFromEnd : Int) ≤ index then .noSuchArgument else .noIndex := by
  cases index with
  | ofNat k =>
    refine iff_of_false (by simp [argument?]) fun ⟨h, _⟩ => ?_
    simp only [Int.ofNat_eq_natCast] at h
    omega
  | negSucc k =>
    simp only [argument?]
    by_cases hlt : k < arguments.length
    · rw [if_pos hlt]
      exact iff_of_false (by simp) fun ⟨h, _⟩ => by omega
    · have hfits : -(maxFromEnd : Int) ≤ .negSucc k ↔ k < maxFromEnd := by omega
      rw [if_neg hlt, if_congr hfits rfl rfl, ← apply_ite Except.error, Except.error.injEq,
        eq_comm (a := e), iff_and_self]
      exact fun _ => by omega

theorem writesTag_eq_error_iff {tag : Int} {arguments : List Text} {param : Command.Param}
    {e : Error} : writesTag tag arguments param = .error e ↔ Fault arguments param e := by
  unfold writesTag
  constructor
  · intro h
    split at h
    · rename_i cause harg
      cases h
      obtain ⟨hpast, rfl⟩ := argument?_eq_error_iff.1 harg
      split_ifs with hfits
      · exact .noSuchArgument hpast hfits
      · exact .noIndex hpast (Int.not_le.1 hfits)
    · cases h
    · rename_i argument harg
      split at h
      · rename_i overlong hread
        cases h
        obtain ⟨hlong, rfl⟩ := leadingInt?_eq_error_iff.1 hread
        exact .overlong (argument?_eq_some_iff.1 harg) hlong
      · cases h
  · intro h
    cases h with
    | noSuchArgument hpast hfits =>
      rw [argument?_eq_error_iff.2 ⟨hpast, rfl⟩]
      simp only [if_pos hfits]
    | noIndex hpast hfar =>
      rw [argument?_eq_error_iff.2 ⟨hpast, rfl⟩]
      simp only [if_neg (Int.not_le.2 hfar)]
    | overlong hstands hlong =>
      rw [argument?_eq_some_iff.2 hstands]
      simp only [leadingInt?_eq_error_iff.2 ⟨hlong, rfl⟩]

/-- Some item fails, and all items before it pass. -/
def FirstFault {α : Type} (passes fails : α → Prop) (items : List α) : Prop :=
  ∃ before item after, items = before ++ item :: after ∧ (∀ b ∈ before, passes b) ∧ fails item

theorem firstFault_nil {α : Type} {passes fails : α → Prop} : ¬ FirstFault passes fails [] := by
  rintro ⟨before, item, after, h, -⟩
  simp at h

theorem firstFault_cons {α : Type} {passes fails : α → Prop} {a : α} {items : List α} :
    FirstFault passes fails (a :: items)
      ↔ fails a ∨ passes a ∧ FirstFault passes fails items := by
  constructor
  · rintro ⟨_ | ⟨b, before⟩, item, after, h, hbefore, hitem⟩
    · obtain ⟨rfl, -⟩ := List.cons.inj h
      exact .inl hitem
    · obtain ⟨rfl, rfl⟩ := List.cons.inj h
      exact .inr ⟨hbefore a (by simp), before, item, after, rfl,
        fun b hb => hbefore b (by simp [hb]), hitem⟩
  · rintro (ha | ⟨ha, before, item, after, rfl, hbefore, hitem⟩)
    · exact ⟨[], a, items, rfl, by simp, ha⟩
    · refine ⟨a :: before, item, after, rfl, fun b hb => ?_, hitem⟩
      rcases List.mem_cons.1 hb with rfl | hb
      · exact ha
      · exact hbefore b hb

theorem someWritesTag_eq_error_iff {tag : Int} {arguments : List Text} {e : Error} :
    ∀ {params : List Command.Param}, someWritesTag tag arguments params = .error e
      ↔ FirstFault (fun param => writesTag tag arguments param = .ok false)
        (fun param => Fault arguments param e) params
  | [] => by simp [someWritesTag, firstFault_nil]
  | param :: rest => by
    rw [firstFault_cons, ← writesTag_eq_error_iff, ← someWritesTag_eq_error_iff]
    rcases h : writesTag tag arguments param with cause | _ | _ <;> simp [someWritesTag, h]

/-- Which call of a line cannot be told to write or not: one of its parameters for the slot has a
fault, and no parameter before it takes the tag. -/
def CallFault (schema : Schema) (tag : Int) (slot : Slot) (e : Error) (call : Script.Invocation) :
    Prop :=
  ∃ command, schema.find? ⟨.string call.name⟩ = some command
    ∧ FirstFault (fun param => writesTag tag call.arguments param = .ok false)
      (fun param => Fault call.arguments param e) (command.writers slot)

theorem writes_eq_error_iff {schema : Schema} {tag : Int} {slot : Slot} {e : Error}
    {call : Script.Invocation} :
    Invocation.writes schema tag slot call = .error e ↔ CallFault schema tag slot e call := by
  unfold Invocation.writes CallFault
  split
  · rename_i h
    simp [h]
  · rename_i command h
    rw [someWritesTag_eq_error_iff]
    simp [h]

theorem firstWriter?_eq_error_iff {schema : Schema} {tag : Int} {slot : Slot} {e : Error} :
    ∀ {calls : List Script.Invocation}, firstWriter? schema tag slot calls = .error e
      ↔ FirstFault (fun call => Invocation.writes schema tag slot call = .ok false)
        (CallFault schema tag slot e) calls
  | [] => by simp [firstWriter?, firstFault_nil]
  | call :: rest => by
    rw [firstFault_cons, ← writes_eq_error_iff, ← firstWriter?_eq_error_iff]
    rcases h : Invocation.writes schema tag slot call with cause | _ | _ <;>
      simp [firstWriter?, h]

/-- A line stumbles over the first of its calls that has a fault, if no call before it writes. -/
def Stumbles (schema : Schema) (tag : Int) (slot : Slot) (line : Text) (e : Error) : Prop :=
  FirstFault (fun call => Invocation.writes schema tag slot call = .ok false)
    (CallFault schema tag slot e) (Script.invocations (Script.code line))

theorem writer?_eq_error_iff {schema : Schema} {tag : Int} {slot : Slot} {line : Text}
    {e : Error} :
    writer? schema tag slot line = .error e ↔ Stumbles schema tag slot line e :=
  firstWriter?_eq_error_iff

/-- No parameter of the schema counts back from the end of the arguments. -/
def CountsFromStart (schema : Schema) : Prop :=
  ∀ name command, schema.find? name = some command → ∀ param ∈ command.params,
    0 ≤ param.index.value

theorem not_stumbles {schema : Schema} {tag : Int} {slot : Slot} {line : Text} {e : Error}
    (hschema : CountsFromStart schema) (hline : ShortRuns line) :
    ¬ Stumbles schema tag slot line e := by
  rintro ⟨before, call, after, hcalls, -, command, hcommand, first, param, rest, hparams, -, hfault⟩
  have hcall : call ∈ Script.invocations (Script.code line) := by simp [hcalls]
  have hparam : param ∈ command.writers slot := by simp [hparams]
  have hindex := hschema _ _ hcommand param (List.mem_filter.1 hparam).1
  cases hfault with
  | noSuchArgument hpast => omega
  | noIndex hpast => omega
  | @overlong argument hstands hlong =>
    obtain ⟨n, hn, -⟩ := hstands
    have hdigits := (infix_of_leadingDigits argument).trans
      (Script.infix_of_invocations hcall (List.mem_of_getElem? hn))
    have := hline _ hdigits fun c hc => List.mem_takeWhile_imp hc
    omega

end Trace

end Dialogue
