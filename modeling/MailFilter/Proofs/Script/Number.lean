import Mathlib.Algebra.Group.Nat.Defs
import MailFilter.Proofs.Script.Printable
import MailFilter.Script.Reading

/-!
# Numbers read back

A number that is short enough is written as one word, and the word is read as that number with that
unit.  Every number that is read is short enough.
-/

namespace MailFilter.Reading

theorem forall_digit {P : Char → Prop} (h : ∀ n : Fin 10, P (Char.ofNat (48 + n))) {c : Char}
    (hc : c.isDigit = true) : P c := by
  simp only [Char.isDigit, Bool.and_eq_true, decide_eq_true_eq] at hc
  have hlow : 48 ≤ c.toNat := hc.1
  have hhigh : c.toNat ≤ 57 := hc.2
  have := h ⟨c.toNat - 48, by omega⟩
  rwa [show 48 + (c.toNat - 48) = c.toNat by omega, Char.ofNat_toNat] at this

theorem forall_unit {p : Char → Bool} (h : ['K', 'M', 'G', 'k', 'm', 'g'].all p = true) {c : Char}
    (hc : Lexeme.isUnit c = true) : p c = true :=
  List.all_eq_true.1 h c (List.contains_iff_mem.1 hc)

theorem unit_of_isDigit {c : Char} (h : c.isDigit = true) :
    NumberUnit.ofText? (String.singleton c.toUpper) = none ∧ Lexeme.isUnit c = false := by
  revert h
  exact forall_digit (P := fun c => NumberUnit.ofText? (String.singleton c.toUpper) = none ∧
    Lexeme.isUnit c = false) (by decide +kernel)

theorem unit_of_isUnit {c : Char} (h : Lexeme.isUnit c = true) :
    (NumberUnit.ofText? (String.singleton c.toUpper)).isSome = true := by
  revert h
  exact forall_unit (p := fun c => (NumberUnit.ofText? (String.singleton c.toUpper)).isSome)
    (by decide +kernel)

/-! ## Values -/

theorem ofDigits_eq (cs : List Char) :
    Text.ofDigits (cs.map (·.toNat - 0x30)) = Nat.ofDigitChars 10 cs 0 := by
  rw [Text.ofDigits, List.foldl_map, Nat.ofDigitChars_eq_foldl]
  rfl

theorem ofDigits_lt {cs : List Char} (h : cs.all Char.isDigit = true) :
    Nat.ofDigitChars 10 cs 0 < 10 ^ cs.length := by
  induction cs with
  | nil => simp
  | cons c cs ih =>
      simp only [List.all_cons, Bool.and_eq_true] at h
      have hdigit : c.toNat - '0'.toNat ≤ 9 :=
        forall_digit (P := fun c => c.toNat - '0'.toNat ≤ 9) (by decide) h.1
      rw [Nat.ofDigitChars_cons, Nat.ofDigitChars_eq_ofDigitChars_zero, List.length_cons, Nat.pow_succ]
      have hmul := Nat.mul_le_mul_left (10 ^ cs.length) hdigit
      have := ih h.2
      rw [Nat.mul_zero, Nat.zero_add]
      omega

theorem natOfDigits_toDigits {n : Nat} (h : (Nat.toDigits 10 n).length ≤ Text.maxDigits) :
    Text.natOfDigits ((Nat.toDigits 10 n).map (·.toNat - 0x30)) = .ok n := by
  rw [Text.natOfDigits, if_neg (by rw [List.length_map]; omega), ofDigits_eq,
    Nat.ofDigitChars_ten_toDigits]

/-! ## Words -/

theorem toList_number {value : Int} (h : 0 ≤ value) (unit : NumberUnit) :
    (toString value ++ unit.text).toList = Nat.toDigits 10 value.toNat ++ unit.text.toList := by
  obtain ⟨n, rfl⟩ := Int.eq_ofNat_of_zero_le h
  rw [String.toList_append]
  exact congrArg (· ++ _) Nat.toList_repr

theorem length_toDigits_of_isShort {value : Int} (h : IsShort value) :
    (Nat.toDigits 10 value.toNat).length ≤ Text.maxDigits := by
  obtain ⟨hnonneg, hlength⟩ := h
  obtain ⟨n, rfl⟩ := Int.eq_ofNat_of_zero_le hnonneg
  rw [← String.length_toList] at hlength
  exact Nat.toList_repr ▸ hlength

theorem isDigit_of_mem_toDigits {n : Nat} {c : Char} (h : c ∈ Nat.toDigits 10 n) :
    c.isDigit = true :=
  Nat.isDigit_of_mem_toDigits (by decide) (by decide) h

theorem exists_concat_toDigits (n : Nat) :
    ∃ ds d, Nat.toDigits 10 n = ds ++ [d] ∧ d.isDigit = true := by
  rcases List.eq_nil_or_concat (Nat.toDigits 10 n) with hnil | ⟨ds, d, heq⟩
  · exact absurd hnil Nat.toDigits_ne_nil
  · rw [List.concat_eq_append] at heq
    exact ⟨ds, d, heq, isDigit_of_mem_toDigits (by rw [heq]; simp)⟩

theorem unit_cases (unit : NumberUnit) :
    unit = .one ∧ unit.text.toList = [] ∨
      ∃ c, unit.text.toList = [c] ∧ Lexeme.isUnit c = true ∧
        NumberUnit.ofText? (String.singleton c.toUpper) = some unit := by
  cases unit with
  | one => exact .inl ⟨rfl, by decide⟩
  | kilo => exact .inr ⟨'K', by decide, by decide, by decide +kernel⟩
  | mega => exact .inr ⟨'M', by decide, by decide, by decide +kernel⟩
  | giga => exact .inr ⟨'G', by decide, by decide, by decide +kernel⟩

theorem number_of_toDigits {n : Nat} (h : (Nat.toDigits 10 n).length ≤ Text.maxDigits)
    (unit : NumberUnit) :
    number (String.ofList (Nat.toDigits 10 n ++ unit.text.toList)) = .ok (n, unit) := by
  obtain ⟨ds, d, hdigits, hd⟩ := exists_concat_toDigits n
  obtain ⟨rfl, htext⟩ | ⟨c, htext, -, hunit⟩ := unit_cases unit
  · have hlast : (ds ++ [d]).getLast? = some d := by simp
    simp only [number, String.toList_ofList, htext, List.append_nil]
    rw [hdigits] at h ⊢
    simp only [hlast, Option.map_some, Option.bind_some, (unit_of_isDigit hd).1, Option.isSome_none]
    rw [← hdigits] at h ⊢
    simp only [Bool.false_eq_true, if_false, natOfDigits_toDigits h]
    rfl
  · simp only [number, String.toList_ofList, htext, List.getLast?_concat, Option.map_some,
      Option.bind_some, hunit, Option.isSome_some, if_true, List.dropLast_concat,
      natOfDigits_toDigits h]
    rfl

theorem number_toString {value : Int} (h : IsShort value) (unit : NumberUnit) :
    number (toString value ++ unit.text) = .ok (value.toNat, unit) := by
  have := number_of_toDigits (length_toDigits_of_isShort h) unit
  rwa [← toList_number h.1, String.ofList_toList] at this

theorem isNumber_toDigits (n : Nat) (unit : NumberUnit) :
    Lexeme.isNumber (Nat.toDigits 10 n ++ unit.text.toList) = true := by
  have hall : (Nat.toDigits 10 n).all Char.isDigit = true :=
    List.all_eq_true.2 fun c hc => isDigit_of_mem_toDigits hc
  have hne : (Nat.toDigits 10 n).isEmpty = false := by simp
  obtain ⟨ds, d, hdigits, hd⟩ := exists_concat_toDigits n
  obtain ⟨rfl, htext⟩ | ⟨c, htext, hunit, -⟩ := unit_cases unit
  · have hlast : (Nat.toDigits 10 n).getLast? = some d := by rw [hdigits]; simp
    simp [Lexeme.isNumber, htext, hlast, (unit_of_isDigit hd).2, hall]
  · simp [Lexeme.isNumber, htext, hunit, hall]

theorem isWord_number {value : Int} (h : 0 ≤ value) (unit : NumberUnit) :
    Lexeme.IsWord (toString value ++ unit.text).toList ∧
      Lexeme.isTextKey (toString value ++ unit.text).toList = false ∧
      Lexeme.wordItem (toString value ++ unit.text).toList = .number (toString value ++ unit.text) := by
  have hchar : ∀ c ∈ (toString value ++ unit.text).toList, Text.isBlank c = false ∧
      Lexeme.isDelimiter c = false ∧ c ≠ '/' ∧ c ≠ ':' ∧ c.toLower ≠ 't' := by
    intro c hc
    rw [toList_number h, List.mem_append] at hc
    rcases hc with hc | hc
    · exact forall_digit (P := fun c => Text.isBlank c = false ∧ Lexeme.isDelimiter c = false ∧
        c ≠ '/' ∧ c ≠ ':' ∧ c.toLower ≠ 't') (by decide) (isDigit_of_mem_toDigits hc)
    · have hunit : unit.text.toList.all (fun c => !Text.isBlank c && !Lexeme.isDelimiter c &&
          c != '/' && c != ':' && c.toLower != 't') = true := by cases unit <;> decide
      have := List.all_eq_true.1 hunit c hc
      simpa [and_assoc] using this
  refine ⟨⟨fun c hc => ⟨(hchar c hc).1, (hchar c hc).2.1⟩, fun hslash => ?_⟩, ?_, ?_⟩
  · exact (hchar '/' (hslash.subset (by simp))).2.2.1 rfl
  · rw [Bool.eq_false_iff]
    intro hkey
    simp only [Lexeme.isTextKey, beq_iff_eq] at hkey
    obtain ⟨c, rest, hcons, hlower, -⟩ := List.map_eq_cons_iff.1 hkey
    exact (hchar c (by rw [hcons]; simp)).2.2.2.2 hlower
  · have hnumber := isNumber_toDigits value.toNat unit
    rw [← toList_number h] at hnumber
    rw [Lexeme.wordItem, if_neg, if_pos hnumber, String.ofList_toList]
    simp only [beq_iff_eq]
    exact fun hhead => (hchar ':' (List.mem_of_mem_head? hhead)).2.2.2.1 rfl

/-! ## Numbers of a text -/

def unit? (c : Char) : Option NumberUnit := NumberUnit.ofText? (String.singleton c.toUpper)

/-- What digits count, with perhaps a unit after them. -/
def count (text : String) : Nat × NumberUnit :=
  match text.toList.getLast?.bind unit? with
  | some unit => (Nat.ofDigitChars 10 text.toList.dropLast 0, unit)
  | none => (Nat.ofDigitChars 10 text.toList 0, .one)

theorem countP_isDigit {digits : List Char} (hall : digits.all Char.isDigit = true) :
    digits.countP Char.isDigit = digits.length :=
  List.countP_eq_length.2 (List.all_eq_true.1 hall)

theorem countP_isDigit_dropLast {word : List Char} {c : Char} (hlast : word.getLast? = some c)
    (hunit : Lexeme.isUnit c = true) : word.dropLast.countP Char.isDigit = word.countP Char.isDigit := by
  have hc : Char.isDigit c = false := by
    rw [Bool.eq_false_iff]
    intro hdigit
    rw [(unit_of_isDigit hdigit).2] at hunit
    cases hunit
  obtain ⟨digits, rfl⟩ := List.getLast?_eq_some_iff.1 hlast
  rw [List.dropLast_concat, List.countP_append, List.countP_singleton, if_neg (by simp [hc]),
    Nat.add_zero]

/-- A number that a text can hold is read as what it counts, unless it has too many digits. -/
theorem number_eq {text : String} (hword : Lexeme.isNumber text.toList = true) :
    ∃ digits : List Char, digits.all Char.isDigit = true ∧
      digits.length = text.toList.countP Char.isDigit ∧
      (count text).1 = Nat.ofDigitChars 10 digits 0 ∧
      number text = (Text.natOfDigits (digits.map (·.toNat - 0x30))).map (·, (count text).2) := by
  simp only [Lexeme.isNumber, Bool.and_eq_true] at hword
  have hall := hword.2
  cases hlast : text.toList.getLast? with
  | none => simp_all
  | some c =>
      simp only [hlast, Option.any_some] at hall
      by_cases hunit : Lexeme.isUnit c = true
      · obtain ⟨unit, hc⟩ := Option.isSome_iff_exists.1 (unit_of_isUnit hunit)
        rw [if_pos hunit] at hall
        refine ⟨text.toList.dropLast, hall, ?_, ?_, ?_⟩
        · rw [← countP_isDigit hall, countP_isDigit_dropLast hlast hunit]
        · simp only [count, hlast, Option.bind_some, unit?, hc]
        · simp only [number, count, hlast, Option.map_some, Option.bind_some, unit?, hc,
            Option.isSome_some, if_true, Option.getD_some]
      · rw [if_neg hunit] at hall
        have hc := (unit_of_isDigit (List.all_eq_true.1 hall c (List.mem_of_getLast? hlast))).1
        refine ⟨text.toList, hall, (countP_isDigit hall).symm, ?_, ?_⟩
        · simp only [count, hlast, Option.bind_some, unit?, hc]
        · simp only [number, count, hlast, Option.map_some, Option.bind_some, unit?, hc,
            Option.isSome_none, Bool.false_eq_true, if_false, Option.getD_none]

theorem number_of_short {text : String} (hword : Lexeme.isNumber text.toList = true)
    (hshort : text.toList.countP Char.isDigit ≤ Text.maxDigits) : number text = .ok (count text) := by
  obtain ⟨digits, hall, hlength, hvalue, hnumber⟩ := number_eq hword
  rw [hnumber, Text.natOfDigits, if_neg (by rw [List.length_map]; omega), ofDigits_eq, ← hvalue]
  rfl

theorem number_of_long {text : String} (hword : Lexeme.isNumber text.toList = true)
    (hlong : Text.maxDigits < text.toList.countP Char.isDigit) :
    number text = .error (.tooLong (text.toList.countP Char.isDigit)) := by
  obtain ⟨digits, hall, hlength, -, hnumber⟩ := number_eq hword
  rw [hnumber, Text.natOfDigits, if_pos (by rw [List.length_map]; omega), List.length_map, hlength]
  rfl

theorem isShort_of_number {text : String} {n : Nat} {unit : NumberUnit}
    (hword : Lexeme.isNumber text.toList = true) (h : number text = .ok (n, unit)) :
    IsShort (n : Int) := by
  obtain ⟨digits, hall, -, -, hnumber⟩ := number_eq hword
  obtain ⟨m, hread, heq⟩ := Lexeme.map_ok (hnumber ▸ h)
  cases heq
  rw [Text.natOfDigits] at hread
  split at hread
  · cases hread
  next hlength =>
  rw [ofDigits_eq] at hread
  cases hread
  rw [List.length_map] at hlength
  refine ⟨Int.natCast_nonneg _, (Nat.length_repr_le_iff (by decide)).2 ?_⟩
  exact Nat.lt_of_lt_of_le (ofDigits_lt hall) (Nat.pow_le_pow_right (by decide) (by omega))

end MailFilter.Reading
