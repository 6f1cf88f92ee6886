import Mathlib.Data.List.Forall2
import Mathlib.Tactic.IntervalCases
import ChipEight.Proofs.Subroutine

/-!
# Anomalies

A program may run into a word that is not documented, return when nothing was called, or call once
too often. None of these stops it: the machine reports an error and goes on with the next word, as
if nothing had been asked for (`Machine.anomalies_passed_over`). Nothing else is reported as an
error while the program counter and the stack pointer are in range.

Which words are documented is told here by the forms they are written in, digit by digit, and not by
the way they are read; that both come to the same is `Instruction.isSome_ofWord?_iff`.
-/

namespace ChipEight

/-! ## Forms -/

/-- A place in a form: a certain digit, or an operand, for which there may be any digit. -/
inductive Place where
  | digit (d : Nat)
  | operand

namespace Place

instance (d : Nat) : OfNat Place d :=
  ⟨digit d⟩

def Admits : Place → Digit → Prop
  | digit d, d' => d'.val = d
  | operand, _ => True

instance : ∀ (p : Place) (d : Digit), Decidable (p.Admits d)
  | digit d, d' => inferInstanceAs (Decidable (d'.val = d))
  | operand, _ => .isTrue trivial

theorem admits_ofNat {k : Nat} {d : Digit} : Admits (no_index (OfNat.ofNat k)) d ↔ d.val = k :=
  .rfl

end Place

/-- One of the forms admits these digits. -/
def HaveForm (forms : List (List Place)) (digits : List Digit) : Prop :=
  ∃ form ∈ forms, List.Forall₂ Place.Admits form digits

/-- The forms that begin with a digit, without it. -/
def formsBehind (forms : List (List Place)) (d : Digit) : List (List Place) :=
  forms.filterMap fun
    | [] => none
    | p :: form => if p.Admits d then some form else none

/-- Digits have one of the forms if those behind the first have the rest of one that admits it. -/
theorem haveForm_cons {forms : List (List Place)} {d : Digit} {digits : List Digit} :
    HaveForm forms (d :: digits) ↔ HaveForm (formsBehind forms d) digits := by
  constructor
  · rintro ⟨form, hmem, hform⟩
    cases hform with
    | cons hd hrest => exact ⟨_, List.mem_filterMap.2 ⟨_, hmem, if_pos hd⟩, hrest⟩
  · rintro ⟨form, hmem, hform⟩
    obtain ⟨whole, hwhole, hbehind⟩ := List.mem_filterMap.1 hmem
    cases whole with
    | nil => cases hbehind
    | cons p rest =>
      simp only [Option.ite_none_right_eq_some, Option.some.injEq] at hbehind
      obtain ⟨hd, rfl⟩ := hbehind
      exact ⟨_, hwhole, .cons hd hform⟩

theorem haveForm_nil {digits : List Digit} : HaveForm [] digits ↔ False := by
  simp only [HaveForm, List.not_mem_nil, false_and, exists_false]

/-- A family with one more form. -/
theorem haveForm_family {o p q : Place} {forms : List (List Place)} {x y n : Digit} :
    HaveForm ([o, p, q] :: forms) [x, y, n] ↔
      (o.Admits x ∧ p.Admits y ∧ q.Admits n) ∨ HaveForm forms [x, y, n] := by
  simp only [HaveForm, List.mem_cons, exists_eq_or_imp, List.forall₂_cons,
    List.forall₂_nil_right_iff, and_true]

/-- A family whose words are told apart by their last digit. -/
theorem haveForm_lastDigit {l : List Nat} {x y n : Digit} :
    HaveForm (l.map fun k => [.operand, .operand, .digit k]) [x, y, n] ↔ n.val ∈ l := by
  induction l with
  | nil => simp only [List.map_nil, haveForm_nil, List.not_mem_nil]
  | cons k l ih =>
    have hfirst : (Place.operand.Admits x ∧ Place.operand.Admits y ∧ (Place.digit k).Admits n) ↔
        n.val = k := ⟨fun h => h.2.2, fun h => ⟨trivial, trivial, h⟩⟩
    rw [List.map_cons, haveForm_family, hfirst, ih, List.mem_cons]

/-- A family whose words are told apart by their last byte. -/
theorem haveForm_lastByte {l : List Nat} {x y n : Digit} :
    HaveForm (l.map fun b => [.operand, .digit (b / 0x10), .digit (b % 0x10)]) [x, y, n] ↔
      y.val * 0x10 + n.val ∈ l := by
  induction l with
  | nil => simp only [List.map_nil, haveForm_nil, List.not_mem_nil]
  | cons b l ih =>
    have hfirst : (Place.operand.Admits x ∧ (Place.digit (b / 0x10)).Admits y ∧
        (Place.digit (b % 0x10)).Admits n) ↔ y.val * 0x10 + n.val = b := by
      simp only [Place.Admits, true_and]
      omega
    rw [List.map_cons, haveForm_family, hfirst, ih, List.mem_cons]

namespace Instruction

/-- The documented forms. -/
def forms : List (List Place) :=
  let x := Place.operand
  let y := Place.operand
  let n := Place.operand
  [[0x0, 0x0, 0xE, 0x0], [0x0, 0x0, 0xE, 0xE], [0x1, n, n, n], [0x2, n, n, n], [0x3, x, n, n],
    [0x4, x, n, n], [0x5, x, y, 0x0], [0x6, x, n, n], [0x7, x, n, n], [0x8, x, y, 0x0],
    [0x8, x, y, 0x1], [0x8, x, y, 0x2], [0x8, x, y, 0x3], [0x8, x, y, 0x4], [0x8, x, y, 0x5],
    [0x8, x, y, 0x6], [0x8, x, y, 0x7], [0x8, x, y, 0xE], [0x9, x, y, 0x0], [0xA, n, n, n],
    [0xB, n, n, n], [0xC, x, n, n], [0xD, x, y, n], [0xE, x, 0x9, 0xE], [0xE, x, 0xA, 0x1],
    [0xF, x, 0x0, 0x7], [0xF, x, 0x0, 0xA], [0xF, x, 0x1, 0x5], [0xF, x, 0x1, 0x8],
    [0xF, x, 0x1, 0xE], [0xF, x, 0x2, 0x9], [0xF, x, 0x3, 0x3], [0xF, x, 0x5, 0x5],
    [0xF, x, 0x6, 0x5]]

/-- The digits of a word, the highest first. -/
def digits (word : UInt16) : List Digit :=
  [Digit.lowest (word.toNat / 0x1000), Digit.lowest (word.toNat / 0x100),
    Digit.lowest (word.toNat / 0x10), Digit.lowest word.toNat]

def Documented (word : UInt16) : Prop :=
  HaveForm forms (digits word)

/-- The digits that are read as an instruction are those of a documented form. -/
theorem isSome_ofDigits?_iff {f x y n : Digit} :
    (ofDigits? f x y n).isSome = true ↔ HaveForm forms [f, x, y, n] := by
  have hany : HaveForm [[.operand, .operand, .operand]] [x, y, n] :=
    haveForm_family.2 (.inl ⟨trivial, trivial, trivial⟩)
  rw [haveForm_cons]
  unfold ofDigits?
  dsimp only
  rw [toNat_ofDigits, val_lowest_ofDigits]
  obtain ⟨f, hf⟩ := f
  interval_cases f
  -- in most families there are only operands behind the first digit
  any_goals exact iff_of_true rfl hany
  all_goals simp only
  case «0» =>
    change _ ↔ HaveForm [[0x0, 0xE, 0x0], [0x0, 0xE, 0xE]] [x, y, n]
    rw [haveForm_family, haveForm_family, haveForm_nil, or_false]
    simp only [Place.admits_ofNat]
    split <;> simp only [Option.isSome_some, Option.isSome_none, true_iff, Bool.false_eq_true,
      false_iff, imp_false] at * <;> omega
  case «5» | «9» =>
    refine Iff.trans ?_ (haveForm_lastDigit (l := [0x0])).symm
    generalize n.val = k
    split <;> simp_all
  case «8» =>
    refine Iff.trans ?_
      (haveForm_lastDigit (l := [0x0, 0x1, 0x2, 0x3, 0x4, 0x5, 0x6, 0x7, 0xE])).symm
    rw [Option.isSome_map]
    generalize n.val = k
    unfold Alu.ofDigit?
    split <;> simp_all
  case «14» =>
    refine Iff.trans ?_ (haveForm_lastByte (l := [0x9E, 0xA1])).symm
    generalize y.val * 0x10 + n.val = b
    split <;> simp_all
  case «15» =>
    refine Iff.trans ?_ (haveForm_lastByte
      (l := [0x07, 0x0A, 0x15, 0x18, 0x1E, 0x29, 0x33, 0x55, 0x65])).symm
    generalize y.val * 0x10 + n.val = b
    split <;> simp_all

theorem isSome_ofWord?_iff {word : UInt16} : (ofWord? word).isSome = true ↔ Documented word :=
  isSome_ofDigits?_iff

instance (word : UInt16) : Decidable (Documented word) :=
  decidable_of_iff _ isSome_ofWord?_iff

end Instruction

/-! ## What is passed over -/

namespace Machine

/-- What makes a machine that can fetch its next word report an error. -/
inductive Anomaly (m : Machine) : Event → Prop where
  | undocumented (hword : ¬ Instruction.Documented m.nextWord) :
    Anomaly m (.undocumented m.nextWord)
  /-- `00EE` on an empty stack. -/
  | emptyReturn (hword : m.nextWord = 0x00EE) (hsp : m.registers.sp = 0) :
    Anomaly m (.stackUnderflow m.registers.pc)
  /-- `2nnn` on a full stack. -/
  | fullCall (hword : m.nextWord.toNat / 0x1000 = 0x2) (hsp : m.registers.sp = 16) :
    Anomaly m (.stackOverflow (Address.lowest m.nextWord.toNat) m.registers.pc)

/-- The machine with the next word on record, and nothing done about it. -/
def passOver (m : Machine) : Machine :=
  { m with registers :=
    { m.registers with
      pc := m.registers.pc + 2
      lastWord := m.nextWord
      lastAddress := m.registers.pc } }

variable {m : Machine} {e : Event}

theorem instruction?_eq_none_iff :
    m.instruction? = none ↔ ¬ Instruction.Documented m.nextWord := by
  rw [← Instruction.isSome_ofWord?_iff, Bool.not_eq_true, Option.isSome_eq_false_iff,
    Option.isNone_iff_eq_none]
  rfl

theorem Anomaly.level (h : m.Anomaly e) : e.level = .error := by
  cases h <;> rfl

/-- An anomaly is reported and passed over. -/
theorem Anomaly.step (h : m.Anomaly e) (hf : fetchable m.registers.pc = true)
    (entropy : List UInt8) :
    m.step entropy =
      ⟨none, m.passOver, entropy, [.fetched m.registers.pc m.nextWord, e]⟩ := by
  cases h with
  | undocumented hword =>
    exact step_of_ok hf (carryOut_of_none (instruction?_eq_none_iff.2 hword) entropy)
  | emptyReturn hword hsp =>
    have hi : m.instruction? = some .ret := Instruction.ofWord?_eq_some_iff.2 hword
    exact step_ret_of_empty hf hi hsp entropy
  | fullCall hword hsp =>
    have hi : m.instruction? = some (.call (Address.lowest m.nextWord.toNat)) :=
      Instruction.ofWord?_eq_some_iff.2 (Instruction.eq_toWord_call_iff.2 ⟨hword, rfl⟩)
    exact step_call_of_full hf hi hsp entropy

/-- Of the reports of an instruction that is carried out, only those about the stack are errors. -/
theorem anomaly_of_execute {i : Instruction} {entropy : List UInt8} {effect : Effect}
    (hi : m.instruction? = some i) (he : m.recorded.execute entropy i = .ok effect)
    (hmem : e ∈ effect.events) (hlevel : e.level = .error) : m.Anomaly e := by
  have hword : m.nextWord = i.toWord := Instruction.ofWord?_eq_some_iff.1 hi
  cases i with
  | ret =>
    obtain ⟨hsp, hr⟩ | ⟨_, _, _, hr⟩ | ⟨_, hr⟩ := m.recorded.execute_ret_cases entropy <;>
      rw [hr] at he <;> cases he
    · obtain rfl := List.mem_singleton.1 hmem
      exact .emptyReturn hword hsp
    · cases hmem
  | call nnn =>
    obtain ⟨hsp, hr⟩ | ⟨_, hr⟩ | ⟨_, hr⟩ := m.recorded.execute_call_cases entropy nnn <;>
      rw [hr] at he <;> cases he
    · obtain rfl := List.mem_singleton.1 hmem
      obtain ⟨hcall, rfl⟩ := Instruction.eq_toWord_call_iff.1 hword
      exact .fullCall hcall hsp
    · cases hmem
  | _ =>
    have hreports := reports_execute he
    generalize effect.events = events at hreports hmem
    cases hreports with
    | nothing => cases hmem
    | _ =>
      obtain rfl := List.mem_singleton.1 hmem
      cases hlevel

/-- An error that a step reports is an anomaly. -/
theorem anomaly_of_mem_step {entropy : List UInt8} (hf : fetchable m.registers.pc = true)
    (hmem : e ∈ (m.step entropy).events) (hlevel : e.level = .error) : m.Anomaly e := by
  rw [step_eq, if_pos hf] at hmem
  cases hc : m.carryOut entropy with
  | error broken =>
    rw [hc] at hmem
    obtain rfl := List.mem_singleton.1 hmem
    cases hlevel
  | ok effect =>
    rw [hc] at hmem
    rcases List.mem_cons.1 hmem with rfl | hmem
    · cases hlevel
    · cases hi : m.instruction? with
      | none =>
        rw [carryOut_of_none hi] at hc
        cases hc
        obtain rfl := List.mem_singleton.1 hmem
        exact .undocumented (instruction?_eq_none_iff.1 hi)
      | some i =>
        rw [carryOut_of_some hi] at hc
        exact anomaly_of_execute hi hc hmem hlevel

/-- **Anomalies are passed over.** Where a word can be fetched, a step reports an error exactly if
the word is undocumented, a return on an empty stack or a call on a full one. It is then the only
error and no fault: the program goes on behind the word, and all that is left of the step is that
the word is on record. -/
theorem anomalies_passed_over (m : Machine) (entropy : List UInt8)
    (hpc : 0x200 ≤ m.registers.pc.toNat ∧ m.registers.pc.toNat ≤ 0xFFE) :
    ((∃ e ∈ (m.step entropy).events, e.level = .error) ↔ ∃ e, m.Anomaly e) ∧
    ∀ e, m.Anomaly e →
      m.step entropy =
        ⟨none, m.passOver, entropy, [.fetched m.registers.pc m.nextWord, e]⟩ ∧
      (m.step entropy).events.filter (·.level = .error) = [e] := by
  have hf : fetchable m.registers.pc = true := fetchable_iff.2 hpc
  refine ⟨⟨?_, ?_⟩, fun e h => ⟨h.step hf entropy, ?_⟩⟩
  · rintro ⟨e, hmem, hlevel⟩
    exact ⟨e, anomaly_of_mem_step hf hmem hlevel⟩
  · rintro ⟨e, h⟩
    refine ⟨e, ?_, h.level⟩
    rw [h.step hf]
    exact List.mem_cons_of_mem _ List.mem_cons_self
  · rw [h.step hf]
    have hfetched : (Event.fetched m.registers.pc m.nextWord).level ≠ .error := nofun
    simp only [List.filter_cons, List.filter_nil, hfetched, h.level, decide_true, decide_false,
      if_true]
    rfl

/-- The program begins with a word that only looks like a comparison, and returns from nowhere. -/
theorem anomalies_passed_over_twice :
    let r := (Rig.start 500 .standard 0 []).after [.load #[0x51, 0x23, 0x00, 0xEE]]
    let m := r.machine
    let m' := (r.apply .step).rig.machine
    ((0x200 ≤ m.registers.pc.toNat ∧ m.registers.pc.toNat ≤ 0xFFE) ∧
      m.Anomaly (.undocumented 0x5123) ∧
      m.step [] = ⟨none, m.passOver, [], [.fetched 0x200 0x5123, .undocumented 0x5123]⟩) ∧
    (0x200 ≤ m'.registers.pc.toNat ∧ m'.registers.pc.toNat ≤ 0xFFE) ∧
      m'.Anomaly (.stackUnderflow 0x202) ∧
      ∃ e ∈ (m'.step []).events, e.level = .error := by
  intro r m m'
  have hpc : 0x200 ≤ m.registers.pc.toNat ∧ m.registers.pc.toNat ≤ 0xFFE := by decide +kernel
  have hpc' : 0x200 ≤ m'.registers.pc.toNat ∧ m'.registers.pc.toNat ≤ 0xFFE := by
    decide +kernel
  have hword : m.nextWord = 0x5123 := by decide +kernel
  have hundocumented : ¬ Instruction.Documented m.nextWord := by
    rw [hword]
    decide +kernel
  have h : m.Anomaly (.undocumented 0x5123) := by
    rw [← hword]
    exact .undocumented hundocumented
  have hpc0 : m'.registers.pc = 0x202 := by decide +kernel
  have h' : m'.Anomaly (.stackUnderflow 0x202) := by
    rw [← hpc0]
    exact .emptyReturn (by decide +kernel) (by decide +kernel)
  have hfetched : Event.fetched m.registers.pc m.nextWord = .fetched 0x200 0x5123 := by
    decide +kernel
  obtain ⟨hstep, -⟩ := (m.anomalies_passed_over [] hpc).2 _ h
  rw [hfetched] at hstep
  exact ⟨⟨hpc, h, hstep⟩, hpc', h', (m'.anomalies_passed_over [] hpc').1.2 ⟨_, h'⟩⟩

end Machine
end ChipEight
