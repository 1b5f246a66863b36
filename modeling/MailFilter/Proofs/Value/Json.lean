import MailFilter.Proofs.Script.Number
import MailFilter.Value.Json

/-!
# JSON round trip

A data value without fractions is read back from the JSON text that it is written as.  Integers need
to be short enough to be read, and the fields of a record to have names of their own.
-/

namespace MailFilter

/-! ## Hexadecimal digits -/

namespace Text

theorem hexValue?_hexDigit {n : Nat} (h : n < 16) : hexValue? (hexDigit n) = some n := by
  have hall : ∀ n : Fin 16, hexValue? (hexDigit n) = some n.val := by decide
  exact hall ⟨n, h⟩

theorem hexNumber?_hexDigits (width n : Nat) : hexNumber? (hexDigits width n) = some (n % 16 ^ width) := by
  induction width generalizing n with
  | zero => rw [Nat.pow_zero, Nat.mod_one]; rfl
  | succ width ih =>
      have hsplit : 16 * (n / 16 % 16 ^ width) + n % 16 = n % 16 ^ (width + 1) := by
        rw [Nat.pow_succ, Nat.mul_comm (16 ^ width), Nat.mod_mul]
        omega
      unfold hexNumber? at ih ⊢
      rw [hexDigits, List.foldlM_append, ih, Option.bind_eq_bind, Option.bind_some, List.foldlM_cons,
        hexValue?_hexDigit (Nat.mod_lt n (by decide)), ← hsplit]
      rfl

end Text

namespace Value

/-! ## Strings -/

theorem readUnit_hexDigits {u : Nat} (h : u < 0x10000) (rest : List Char) :
    readUnit (Text.hexDigits 4 u ++ rest) = some (u, rest) := by
  have hnumber := Text.hexNumber?_hexDigits 4 u
  rw [Nat.mod_eq_of_lt (show u < 16 ^ 4 from h)] at hnumber
  change (Text.hexNumber? (Text.hexDigits 4 u)).map (·, rest) = some (u, rest)
  rw [hnumber]
  rfl

theorem readLowSurrogate_hexDigits {u : Nat} (hlow : 0xDC00 ≤ u) (hhigh : u < 0xE000)
    (rest : List Char) :
    readLowSurrogate ('\\' :: 'u' :: Text.hexDigits 4 u ++ rest) = some (u, rest) := by
  change (readUnit (Text.hexDigits 4 u ++ rest)).filter _ = _
  rw [readUnit_hexDigits (by omega)]
  exact Option.filter_some_pos (by simpa using ⟨hlow, hhigh⟩)

theorem readStringTail_unit (fuel : Nat) {u : Nat} (hu : u < 0xD800 ∨ 0xE000 ≤ u) (hhigh : u < 0x10000)
    (tail : List Char) :
    readStringTail (fuel + 1) ('\\' :: 'u' :: (Text.hexDigits 4 u ++ tail)) =
      (readStringTail fuel tail).map fun (cs, rest) => (Char.ofNat u :: cs, rest) := by
  have hfirst : ¬ (0xD800 ≤ u && u < 0xDC00) = true := by
    rw [Bool.and_eq_true, decide_eq_true_iff, decide_eq_true_iff]
    omega
  have hsecond : ¬ (0xDC00 ≤ u && u < 0xE000) = true := by
    rw [Bool.and_eq_true, decide_eq_true_iff, decide_eq_true_iff]
    omega
  rw [readStringTail, readUnit_hexDigits hhigh]
  dsimp only
  rw [if_neg hfirst, if_neg hsecond]

theorem readStringTail_pair (fuel : Nat) {u v : Nat} (hu : 0xD800 ≤ u ∧ u < 0xDC00)
    (hv : 0xDC00 ≤ v ∧ v < 0xE000) (tail : List Char) :
    readStringTail (fuel + 1)
        ('\\' :: 'u' :: (Text.hexDigits 4 u ++ ('\\' :: 'u' :: (Text.hexDigits 4 v ++ tail)))) =
      (readStringTail fuel tail).map fun (cs, rest) =>
        (Char.ofNat (0x10000 + (u - 0xD800) * 0x400 + (v - 0xDC00)) :: cs, rest) := by
  have hfirst : (0xD800 ≤ u && u < 0xDC00) = true := by
    rw [Bool.and_eq_true, decide_eq_true_iff, decide_eq_true_iff]
    exact hu
  rw [readStringTail, readUnit_hexDigits (by omega)]
  dsimp only
  rw [if_pos hfirst, ← List.cons_append, ← List.cons_append, readLowSurrogate_hexDigits hv.1 hv.2]

theorem readStringTail_units (fuel : Nat) (c : Char) (tail : List Char) :
    readStringTail (fuel + 1)
        ((Text.utf16Units c).flatMap (fun u => '\\' :: 'u' :: Text.hexDigits 4 u) ++ tail) =
      (readStringTail fuel tail).map fun (cs, rest) => (c :: cs, rest) := by
  have hvalid : c.toNat < 0xD800 ∨ 0xDFFF < c.toNat ∧ c.toNat < 0x110000 := c.valid
  unfold Text.utf16Units
  dsimp only
  split
  · next hone =>
      rw [List.flatMap_singleton]
      have h := readStringTail_unit fuel (u := c.toNat) (by omega) hone tail
      rwa [Char.ofNat_toNat] at h
  · next htwo =>
      have h := readStringTail_pair fuel (u := 0xD800 + (c.toNat - 0x10000) / 0x400)
        (v := 0xDC00 + (c.toNat - 0x10000) % 0x400) (by omega) (by omega) tail
      have hchar : 0x10000 + (0xD800 + (c.toNat - 0x10000) / 0x400 - 0xD800) * 0x400 +
          (0xDC00 + (c.toNat - 0x10000) % 0x400 - 0xDC00) = c.toNat := by omega
      rw [hchar, Char.ofNat_toNat] at h
      simp only [List.flatMap_cons, List.flatMap_nil, List.append_nil, List.cons_append, List.append_assoc]
      exact h

theorem readStringTail_plain (fuel : Nat) {c : Char} (hquote : c ≠ '"') (hslash : c ≠ '\\')
    (hc : 0x20 ≤ c.toNat) (tail : List Char) :
    readStringTail (fuel + 1) (c :: tail) =
      (readStringTail fuel tail).map fun (cs, rest) => (c :: cs, rest) := by
  rw [readStringTail, if_neg]
  · rw [Bool.or_eq_true, decide_eq_true_iff, beq_iff_eq]
    exact not_or.mpr ⟨by omega, hslash⟩
  · exact hquote
  · exact fun _ h _ => hslash h
  · exact fun _ _ h _ => hslash h

theorem readStringTail_jsonChar (fuel : Nat) (c : Char) (tail : List Char) :
    readStringTail (fuel + 1) (jsonChar c ++ tail) =
      (readStringTail fuel tail).map fun (cs, rest) => (c :: cs, rest) := by
  unfold jsonChar
  split
  · next h => rw [beq_iff_eq.mp h]; rfl
  split
  · next h => rw [beq_iff_eq.mp h]; rfl
  split
  · next h => rw [beq_iff_eq.mp h]; rfl
  split
  · next h => rw [beq_iff_eq.mp h]; rfl
  split
  · next h => rw [beq_iff_eq.mp h]; rfl
  split
  · next h =>
      obtain rfl : c = '\x08' := Char.toNat_inj.mp (beq_iff_eq.mp h)
      rfl
  split
  · next h =>
      obtain rfl : c = '\x0c' := Char.toNat_inj.mp (beq_iff_eq.mp h)
      rfl
  split
  · next hquote hslash _ _ _ _ _ hplain =>
      rw [Bool.and_eq_true, decide_eq_true_iff, decide_eq_true_iff] at hplain
      exact readStringTail_plain fuel (mt beq_iff_eq.mpr hquote) (mt beq_iff_eq.mpr hslash) hplain.1 tail
  · exact readStringTail_units fuel c tail

theorem jsonChar_ne_nil (c : Char) : jsonChar c ≠ [] := by
  have hunits : (Text.utf16Units c).flatMap (fun u => '\\' :: 'u' :: Text.hexDigits 4 u) ≠ [] := by
    unfold Text.utf16Units
    dsimp only
    split <;> simp
  unfold jsonChar
  repeat' split
  all_goals first | exact hunits | simp

theorem length_le_flatMap_jsonChar (cs : List Char) : cs.length ≤ (cs.flatMap jsonChar).length := by
  induction cs with
  | nil => exact Nat.le_refl 0
  | cons c cs ih =>
      have hc := List.length_pos_of_ne_nil (jsonChar_ne_nil c)
      rw [List.flatMap_cons, List.length_append, List.length_cons]
      omega

theorem readStringTail_flatMap {fuel : Nat} {cs : List Char} (hfuel : cs.length < fuel)
    (rest : List Char) : readStringTail fuel (cs.flatMap jsonChar ++ '"' :: rest) = .ok (cs, rest) := by
  induction cs generalizing fuel with
  | nil =>
      obtain ⟨fuel, rfl⟩ := Nat.exists_eq_succ_of_ne_zero (Nat.ne_of_gt hfuel)
      rfl
  | cons c cs ih =>
      obtain ⟨fuel, rfl⟩ := Nat.exists_eq_succ_of_ne_zero (Nat.ne_of_gt (Nat.zero_lt_of_lt hfuel))
      rw [List.flatMap_cons, List.append_assoc, readStringTail_jsonChar, ih (Nat.lt_of_succ_lt_succ hfuel)]
      rfl

theorem toList_jsonString (s : String) :
    (jsonString s).toList = '"' :: (s.toList.flatMap jsonChar ++ ['"']) := by
  rw [jsonString, String.toList_ofList]
  rfl

theorem readStringTail_jsonString (s : String) (rest : List Char) :
    readStringTail ((s.toList.flatMap jsonChar ++ '"' :: rest).length + 1)
      (s.toList.flatMap jsonChar ++ '"' :: rest) = .ok (s.toList, rest) := by
  have hlength := length_le_flatMap_jsonChar s.toList
  refine readStringTail_flatMap ?_ rest
  rw [List.length_append]
  omega

/-! ## Numbers -/

/-- What comes after a value in a list or a record, or nothing. -/
def Closes (rest : List Char) : Prop := ∀ c ∈ rest.head?, c = ',' ∨ c = ']' ∨ c = '\x7d'

theorem closes_nil : Closes [] := by
  rintro _ ⟨⟩

theorem closes_cons {c : Char} {cs : List Char} (h : c = ',' ∨ c = ']' ∨ c = '\x7d') :
    Closes (c :: cs) := by
  rintro _ ⟨⟩
  exact h

theorem head?_toDigits {n : Nat} (h : 0 < n) : (Nat.toDigits 10 n).head? ≠ some '0' := by
  induction n using Nat.strongRecOn with
  | ind n ih =>
      rw [Nat.toDigits_eq_if (by decide)]
      split
      · next hlt =>
          have hall : ∀ n : Fin 10, 0 < n.val → [n.val.digitChar].head? ≠ some '0' := by decide
          exact hall ⟨n, hlt⟩ h
      · next hge =>
          have hpos : 0 < n / 10 := Nat.div_pos (by omega) (by decide)
          rw [List.head?_append_of_ne_nil _ Nat.toDigits_ne_nil]
          exact ih (n / 10) (Nat.div_lt_self h (by decide)) hpos

theorem isDigit_of_closes {rest : List Char} (hrest : Closes rest) :
    rest.takeWhile (·.isDigit) = [] ∧ rest.dropWhile (·.isDigit) = rest := by
  cases rest with
  | nil => exact ⟨rfl, rfl⟩
  | cons c cs =>
      have hc : c.isDigit = false := by
        obtain rfl | rfl | rfl := hrest c rfl <;> rfl
      exact ⟨List.takeWhile_cons_of_neg (by simp [hc]), List.dropWhile_cons_of_neg (by simp [hc])⟩

theorem takeWhile_toDigits (n : Nat) {rest : List Char} (hrest : Closes rest) :
    (Nat.toDigits 10 n ++ rest).takeWhile (·.isDigit) = Nat.toDigits 10 n ∧
      (Nat.toDigits 10 n ++ rest).dropWhile (·.isDigit) = rest := by
  have hdigits : ∀ c ∈ Nat.toDigits 10 n, c.isDigit = true := fun c hc =>
    Reading.isDigit_of_mem_toDigits hc
  obtain ⟨htake, hdrop⟩ := isDigit_of_closes hrest
  exact ⟨by rw [List.takeWhile_append_of_pos hdigits, htake, List.append_nil],
    by rw [List.dropWhile_append_of_pos hdigits, hdrop]⟩

theorem readNumber_toDigits {n : Nat} (hn : (Nat.toDigits 10 n).length ≤ Text.maxDigits) (negative : Bool)
    {rest : List Char} (hrest : Closes rest) :
    readNumber negative (Nat.toDigits 10 n ++ rest) =
      .ok (int (if negative then -(n : Int) else n), rest) := by
  have hfraction : readFraction rest = none := by
    cases rest with
    | nil => rfl
    | cons c cs => obtain rfl | rfl | rfl := hrest c rfl <;> rfl
  have hexponent : readExponent rest = none := by
    cases rest with
    | nil => rfl
    | cons c cs => obtain rfl | rfl | rfl := hrest c rfl <;> rfl
  unfold readNumber
  split
  next whole after hwhole =>
  have hsplit : (whole, after) = (Nat.toDigits 10 n, rest) := by
    split at hwhole
    · next tail heq =>
        -- Only nothing at all is written with a leading zero.
        rcases Nat.eq_zero_or_pos n with rfl | hpos
        · cases heq
          exact hwhole.symm
        · refine absurd ?_ (head?_toDigits hpos)
          rw [← List.head?_append_of_ne_nil _ Nat.toDigits_ne_nil, heq, List.head?_cons]
    · obtain ⟨htake, hdrop⟩ := takeWhile_toDigits n hrest
      rw [← hwhole, htake, hdrop]
  obtain ⟨rfl, rfl⟩ := Prod.mk.inj hsplit
  have hempty : (Nat.toDigits 10 n).isEmpty = false := by simp
  simp only [hempty, hfraction, hexponent, Option.getD_none, List.isEmpty_nil, Option.isNone_none,
    Bool.and_self, if_true, Bool.false_eq_true, if_false, Reading.natOfDigits_toDigits hn]

theorem readWord_of_isDigit {d : Char} (hd : d.isDigit = true) (cs : List Char) :
    readWord (d :: cs) = none ∧ readWord ('-' :: d :: cs) = none := by
  have hne : d ≠ 'n' ∧ d ≠ 't' ∧ d ≠ 'f' ∧ d ≠ 'N' ∧ d ≠ 'I' ∧ d ≠ '-' := by
    refine ⟨?_, ?_, ?_, ?_, ?_, ?_⟩ <;> (rintro rfl; exact absurd hd (by decide))
  obtain ⟨hn, ht, hf, hundefined, hinfinity, hminus⟩ := hne
  constructor
  · simp [readWord, Ne.symm hn, Ne.symm ht, Ne.symm hf, Ne.symm hundefined,
      Ne.symm hinfinity, Ne.symm hminus]
  · simp [readWord, Ne.symm hinfinity]

theorem toList_toString_int (n : Int) :
    (toString n).toList = (if n < 0 then ['-'] else []) ++ Nat.toDigits 10 n.natAbs := by
  cases n with
  | ofNat n =>
      rw [if_neg (by simp), List.nil_append]
      exact Nat.toList_repr
  | negSucc n =>
      rw [if_pos (Int.negSucc_lt_zero n)]
      change ("-" ++ Nat.repr (n + 1)).toList = '-' :: Nat.toDigits 10 (n + 1)
      rw [String.toList_append, Nat.toList_repr]
      rfl

theorem readValue_int (fuel : Nat) {n : Int} (hn : (toString n.natAbs).length ≤ Text.maxDigits)
    {rest : List Char} (hrest : Closes rest) :
    readValue (fuel + 1) ((toString n).toList ++ rest) = .ok (int n, rest) := by
  have hlength : (Nat.toDigits 10 n.natAbs).length ≤ Text.maxDigits := by
    rw [← String.length_toList] at hn
    exact Nat.toList_repr ▸ hn
  have hread (negative : Bool) := readNumber_toDigits hlength negative hrest
  obtain ⟨d, ds, hdigits⟩ := List.exists_cons_of_ne_nil (Nat.toDigits_ne_nil (b := 10) (n := n.natAbs))
  have hd : d.isDigit = true := Reading.isDigit_of_mem_toDigits (hdigits ▸ List.mem_cons_self)
  rw [toList_toString_int]
  rw [hdigits] at hread ⊢
  have hplain : d ≠ '"' ∧ d ≠ '[' ∧ d ≠ '\x7b' ∧ d ≠ '-' := by
    refine ⟨?_, ?_, ?_, ?_⟩ <;> (rintro rfl; exact absurd hd (by decide))
  obtain ⟨hquote, hlist, hrecord, hminus⟩ := hplain
  by_cases hneg : n < 0
  · rw [if_pos hneg]
    have hvalue : -(n.natAbs : Int) = n := by omega
    change readValue (fuel + 1) ('-' :: d :: (ds ++ rest)) = _
    rw [readValue, (readWord_of_isDigit hd (ds ++ rest)).2]
    exact (hread true).trans (by rw [if_pos rfl, hvalue])
  · rw [if_neg hneg]
    have hvalue : (n.natAbs : Int) = n := by omega
    change readValue (fuel + 1) (d :: (ds ++ rest)) = _
    rw [readValue]
    · rw [(readWord_of_isDigit hd (ds ++ rest)).1]
      exact (hread false).trans (by rw [if_neg Bool.false_ne_true, hvalue])
    · exact fun _ h => hquote (List.cons.inj h).1
    · exact fun _ h => hlist (List.cons.inj h).1
    · exact fun _ h => hrecord (List.cons.inj h).1
    · exact fun _ h => hminus (List.cons.inj h).1

/-! ## Records -/

theorem ofFields_of_nodup {fields : List (String × Value)} (h : (fields.map (·.1)).Nodup) :
    ofFields fields = record fields := by
  have hfold (fields acc : List (String × Value)) (h : ((acc ++ fields).map (·.1)).Nodup) :
      fields.foldl (fun fs f => putField fs f.1 f.2) acc = acc ++ fields := by
    induction fields generalizing acc with
    | nil => exact (List.append_nil acc).symm
    | cons f fields ih =>
        obtain ⟨name, v⟩ := f
        have hnew : ¬ acc.any (·.1 == name) = true := by
          rw [List.any_eq_true]
          rintro ⟨g, hg, hname⟩
          rw [List.map_append, List.map_cons] at h
          exact (List.nodup_append.mp h).2.2 g.1 (List.mem_map_of_mem hg) name List.mem_cons_self
            (beq_iff_eq.mp hname)
        have happend : acc ++ [(name, v)] ++ fields = acc ++ (name, v) :: fields := by
          rw [List.append_assoc, List.singleton_append]
        calc ((name, v) :: fields).foldl (fun fs f => putField fs f.1 f.2) acc
            = fields.foldl (fun fs f => putField fs f.1 f.2) (acc ++ [(name, v)]) := by
              rw [List.foldl_cons]
              dsimp only
              rw [putField, if_neg hnew]
          _ = acc ++ [(name, v)] ++ fields := ih _ (happend ▸ h)
          _ = acc ++ (name, v) :: fields := happend
  exact congrArg record (hfold fields [] h)

/-! ## Values -/

mutual

/-- A value that JSON text gives back. -/
def IsExact : Value → Prop
  | null | bool _ | text _ => True
  | int n => (toString n.natAbs).length ≤ Text.maxDigits
  | float _ => False
  | list items => AllExact items
  | record fields => (fields.map (·.1)).Nodup ∧ FieldsExact fields

def AllExact : List Value → Prop
  | [] => True
  | v :: vs => v.IsExact ∧ AllExact vs

def FieldsExact : List (String × Value) → Prop
  | [] => True
  | (_, v) :: fs => v.IsExact ∧ FieldsExact fs

end

/-- A character that a value may start with: neither white space nor the end of a list or a record. -/
def opens (c : Char) : Bool := !([' ', '\t', '\n', '\r', ']', '\x7d'].contains c)

theorem skipJsonSpace_of_opens {c : Char} (h : opens c = true) (cs : List Char) :
    skipJsonSpace (c :: cs) = c :: cs := by
  simp only [opens, List.contains_cons, List.contains_nil, Bool.or_false, Bool.not_eq_true',
    Bool.or_eq_false_iff] at h
  refine List.dropWhile_cons_of_neg ?_
  simp [h]

theorem toList_json_list (items : List Value) :
    (list items).json.toList = '[' :: ((",".intercalate (jsonItems items)).toList ++ [']']) := by
  rw [json, String.toList_append, String.toList_append, List.append_assoc]
  rfl

theorem toList_json_record (fields : List (String × Value)) :
    (record fields).json.toList =
      '\x7b' :: ((",".intercalate (jsonFields fields)).toList ++ ['\x7d']) := by
  rw [json, String.toList_append, String.toList_append, List.append_assoc]
  rfl

theorem exists_json {v : Value} (hv : v.IsExact) :
    ∃ c cs, v.json.toList = c :: cs ∧ opens c = true := by
  cases v with
  | null => exact ⟨'n', _, rfl, by decide⟩
  | bool b => cases b <;> exact ⟨_, _, rfl, by decide⟩
  | int n =>
      rw [json, toList_toString_int]
      obtain ⟨d, ds, hdigits⟩ :=
        List.exists_cons_of_ne_nil (Nat.toDigits_ne_nil (b := 10) (n := n.natAbs))
      have hd : d.isDigit = true := Reading.isDigit_of_mem_toDigits (hdigits ▸ List.mem_cons_self)
      rw [hdigits]
      by_cases hneg : n < 0
      · exact ⟨'-', d :: ds, by rw [if_pos hneg]; rfl, by decide⟩
      · exact ⟨d, ds, by rw [if_neg hneg]; rfl, Reading.forall_digit (P := (opens · = true)) (by decide) hd⟩
  | float => exact hv.elim
  | text s => exact ⟨'"', _, by rw [json, toList_jsonString], by decide⟩
  | list items => exact ⟨'[', _, toList_json_list items, by decide⟩
  | record fields => exact ⟨'\x7b', _, toList_json_record fields, by decide⟩

theorem toList_intercalate_cons (a b : String) (parts : List String) :
    (",".intercalate (a :: b :: parts)).toList =
      a.toList ++ ',' :: (",".intercalate (b :: parts)).toList := by
  rw [String.intercalate_cons_cons, String.toList_append, String.toList_append, List.append_assoc]
  rfl

theorem exists_items {v : Value} (hv : v.IsExact) (vs : List Value) :
    ∃ c cs, (",".intercalate (jsonItems (v :: vs))).toList = c :: cs ∧ opens c = true := by
  obtain ⟨c, cs, hjson, hc⟩ := exists_json hv
  cases vs with
  | nil => exact ⟨c, cs, by rw [jsonItems, jsonItems, String.intercalate_singleton, hjson], hc⟩
  | cons w vs => exact ⟨c, _, by rw [jsonItems, jsonItems, toList_intercalate_cons, hjson]; rfl, hc⟩

theorem toList_field (name : String) (v : Value) :
    (jsonString name ++ ":" ++ v.json).toList =
      '"' :: (name.toList.flatMap jsonChar ++ '"' :: ':' :: v.json.toList) := by
  rw [String.toList_append, String.toList_append, toList_jsonString]
  simp

theorem exists_fields (f : String × Value) (fs : List (String × Value)) :
    ∃ cs, (",".intercalate (jsonFields (f :: fs))).toList = '"' :: cs := by
  obtain ⟨name, v⟩ := f
  cases fs with
  | nil => exact ⟨_, by rw [jsonFields, jsonFields, String.intercalate_singleton, toList_field]⟩
  | cons g fs => exact ⟨_, by rw [jsonFields, jsonFields, toList_intercalate_cons, toList_field]; rfl⟩

/-! ### What readers do with the parts of a list or a record -/

theorem readValue_list {fuel : Nat} {c : Char} {cs rest : List Char} {items : List Value}
    (hc : opens c = true) (h : readItems fuel (c :: cs) = .ok (items, rest)) :
    readValue (fuel + 1) ('[' :: c :: cs) = .ok (list items, rest) := by
  rw [readValue, skipJsonSpace_of_opens hc]
  split
  · next heq =>
      obtain ⟨rfl, -⟩ := List.cons.inj heq
      cases hc
  · rw [h]
    rfl

theorem readItems_last {fuel : Nat} {cs rest : List Char} {v : Value}
    (h : readValue fuel cs = .ok (v, ']' :: rest)) : readItems (fuel + 1) cs = .ok ([v], rest) := by
  rw [readItems, h]
  rfl

theorem readItems_more {fuel : Nat} {c : Char} {cs after rest : List Char} {v : Value} {vs : List Value}
    (hc : opens c = true) (h : readValue fuel cs = .ok (v, ',' :: c :: after))
    (hafter : readItems fuel (c :: after) = .ok (vs, rest)) :
    readItems (fuel + 1) cs = .ok (v :: vs, rest) := by
  rw [readItems, h]
  change (readItems fuel (skipJsonSpace (c :: after)) >>= _) = _
  rw [skipJsonSpace_of_opens hc, hafter]
  rfl

theorem readValue_record {fuel : Nat} {cs rest : List Char} {fields : List (String × Value)}
    (h : readFields fuel ('"' :: cs) = .ok (fields, rest)) :
    readValue (fuel + 1) ('\x7b' :: '"' :: cs) = .ok (ofFields fields, rest) := by
  rw [readValue, skipJsonSpace_of_opens (by decide)]
  change (readFields fuel ('"' :: cs)).map _ = _
  rw [h]
  rfl

theorem readFields_value (fuel : Nat) (name : String) {c : Char} (hc : opens c = true) (cs : List Char) :
    readFields (fuel + 1) ('"' :: (name.toList.flatMap jsonChar ++ '"' :: ':' :: c :: cs)) = (do
      let (v, rest) ← readValue fuel (c :: cs)
      match skipJsonSpace rest with
      | '\x7d' :: rest => .ok ([(name, v)], rest)
      | ',' :: rest =>
        let (fields, rest) ← readFields fuel (skipJsonSpace rest)
        .ok ((name, v) :: fields, rest)
      | _ => .error .malformed) := by
  rw [readFields]
  dsimp only
  rw [readStringTail_jsonString]
  change (readValue fuel (skipJsonSpace (c :: cs)) >>= _) = _
  rewrite [skipJsonSpace_of_opens hc, String.ofList_toList]
  rfl

theorem readFields_last {fuel : Nat} (name : String) {c : Char} {cs rest : List Char} {v : Value}
    (hc : opens c = true) (h : readValue fuel (c :: cs) = .ok (v, '\x7d' :: rest)) :
    readFields (fuel + 1) ('"' :: (name.toList.flatMap jsonChar ++ '"' :: ':' :: c :: cs)) =
      .ok ([(name, v)], rest) := by
  rw [readFields_value fuel name hc, h]
  rfl

theorem readFields_more {fuel : Nat} (name : String) {c : Char} {cs after rest : List Char} {v : Value}
    {fields : List (String × Value)} (hc : opens c = true)
    (h : readValue fuel (c :: cs) = .ok (v, ',' :: '"' :: after))
    (hafter : readFields fuel ('"' :: after) = .ok (fields, rest)) :
    readFields (fuel + 1) ('"' :: (name.toList.flatMap jsonChar ++ '"' :: ':' :: c :: cs)) =
      .ok ((name, v) :: fields, rest) := by
  rw [readFields_value fuel name hc, h]
  change (readFields fuel (skipJsonSpace ('"' :: after)) >>= _) = _
  rw [skipJsonSpace_of_opens (by decide), hafter]
  rfl

/-! ### The round trip

A level of nesting and every further item take a step each, and at least one character of the text; so
twice the length of the text bounds the steps. -/

mutual

theorem readValue_json : ∀ v : Value, v.IsExact → ∀ fuel, 2 * v.json.toList.length ≤ fuel →
    ∀ rest, Closes rest → readValue fuel (v.json.toList ++ rest) = .ok (v, rest)
  | v, hv, 0 => by
      intro hfuel
      obtain ⟨c, cs, hjson, -⟩ := exists_json hv
      rw [hjson] at hfuel
      cases hfuel
  | .null, _, _ + 1 | .bool true, _, _ + 1 | .bool false, _, _ + 1 => fun _ _ _ => rfl
  | .int n, hn, fuel + 1 => fun _ _ hrest => readValue_int fuel hn hrest
  | .float _, hv, _ => hv.elim
  | .text s, _, fuel + 1 => by
      intro _ rest _
      rw [json, toList_jsonString, List.cons_append, List.append_assoc, readValue]
      change (readStringTail ((s.toList.flatMap jsonChar ++ '"' :: rest).length + 1)
        (s.toList.flatMap jsonChar ++ '"' :: rest)).map _ = _
      rw [readStringTail_jsonString]
      exact congrArg (fun s => Except.ok (text s, rest)) String.ofList_toList
  | .list [], _, _ + 1 | .record [], _, _ + 1 => fun _ _ _ => rfl
  | .list (v :: vs), hv, fuel + 1 => by
      intro hfuel rest _
      obtain ⟨c, cs, hitems, hc⟩ := exists_items hv.1 vs
      rw [toList_json_list] at hfuel ⊢
      rw [List.length_cons, List.length_append, List.length_singleton] at hfuel
      have hread := readItems_json (v :: vs) hv (List.cons_ne_nil v vs) fuel (by omega) rest
      rw [List.cons_append, List.append_assoc]
      rw [hitems] at hread ⊢
      exact readValue_list hc hread
  | .record (f :: fs), hv, fuel + 1 => by
      intro hfuel rest _
      obtain ⟨cs, hfields⟩ := exists_fields f fs
      rw [toList_json_record] at hfuel ⊢
      rw [List.length_cons, List.length_append, List.length_singleton] at hfuel
      obtain ⟨fuel, rfl⟩ := Nat.exists_eq_add_of_lt (show 0 < fuel by omega)
      rw [Nat.zero_add] at hfuel ⊢
      have hread := readFields_json (f :: fs) hv.2 (List.cons_ne_nil f fs) fuel (by omega) rest
      rw [List.cons_append, List.append_assoc]
      rw [hfields] at hread ⊢
      rw [← ofFields_of_nodup hv.1]
      exact readValue_record hread

theorem readItems_json : ∀ vs : List Value, AllExact vs → vs ≠ [] → ∀ fuel,
    2 * (",".intercalate (jsonItems vs)).toList.length + 1 ≤ fuel → ∀ rest,
      readItems fuel ((",".intercalate (jsonItems vs)).toList ++ ']' :: rest) = .ok (vs, rest)
  | [], _, hne, _ => absurd rfl hne
  | _ :: _, _, _, 0 => fun hfuel => absurd hfuel (Nat.not_succ_le_zero _)
  | [v], hv, _, fuel + 1 => by
      intro hfuel rest
      rw [jsonItems, jsonItems, String.intercalate_singleton] at hfuel ⊢
      exact readItems_last
        (readValue_json v hv.1 fuel (by omega) (']' :: rest) (closes_cons (.inr (.inl rfl))))
  | v :: w :: vs, hv, _, fuel + 1 => by
      intro hfuel rest
      obtain ⟨c, cs, hitems, hc⟩ := exists_items hv.2.1 vs
      rw [jsonItems, jsonItems, toList_intercalate_cons, ← jsonItems] at hfuel ⊢
      rw [List.length_append, List.length_cons] at hfuel
      have hread := readItems_json (w :: vs) hv.2 (List.cons_ne_nil w vs) fuel (by omega) rest
      rw [List.append_assoc]
      have hvalue := readValue_json v hv.1 fuel (by omega)
        (',' :: ((",".intercalate (jsonItems (w :: vs))).toList ++ ']' :: rest)) (closes_cons (.inl rfl))
      rw [hitems] at hread hvalue ⊢
      exact readItems_more hc hvalue hread

theorem readFields_json : ∀ fs : List (String × Value), FieldsExact fs → fs ≠ [] → ∀ fuel,
    2 * (",".intercalate (jsonFields fs)).toList.length + 1 ≤ fuel + 1 → ∀ rest,
      readFields (fuel + 1) ((",".intercalate (jsonFields fs)).toList ++ '\x7d' :: rest) = .ok (fs, rest)
  | [], _, hne => absurd rfl hne
  | [(name, v)], hv, _ => by
      intro fuel hfuel rest
      obtain ⟨c, cs, hjson, hc⟩ := exists_json hv.1
      rw [jsonFields, jsonFields, String.intercalate_singleton, toList_field] at hfuel ⊢
      simp only [List.length_cons, List.length_append] at hfuel
      have hvalue := readValue_json v hv.1 fuel (by omega) ('\x7d' :: rest)
        (closes_cons (.inr (.inr rfl)))
      rw [hjson] at hvalue ⊢
      rw [List.cons_append, List.append_assoc]
      exact readFields_last name hc hvalue
  | (name, v) :: (name', w) :: fs, hv, _ => by
      intro fuel hfuel rest
      obtain ⟨c, cs, hjson, hc⟩ := exists_json hv.1
      obtain ⟨after, hfields⟩ := exists_fields (name', w) fs
      rw [jsonFields, jsonFields, toList_intercalate_cons, ← jsonFields, toList_field] at hfuel ⊢
      simp only [List.length_cons, List.length_append] at hfuel
      obtain ⟨fuel, rfl⟩ := Nat.exists_eq_add_of_lt (show 0 < fuel by omega)
      rw [Nat.zero_add] at hfuel ⊢
      have hread := readFields_json ((name', w) :: fs) hv.2 (List.cons_ne_nil _ fs) fuel (by omega) rest
      have hvalue := readValue_json v hv.1 (fuel + 1) (by omega)
        (',' :: ((",".intercalate (jsonFields ((name', w) :: fs))).toList ++ '\x7d' :: rest))
        (closes_cons (.inl rfl))
      rw [hfields] at hread hvalue ⊢
      rw [hjson] at hvalue ⊢
      rw [List.append_assoc, List.cons_append, List.append_assoc]
      exact readFields_more name hc hvalue hread

end

/-- JSON text gives back the value that it was written for. -/
theorem ofJson_json {v : Value} (hv : v.IsExact) : ofJson v.json.toList = .ok v := by
  obtain ⟨c, cs, hjson, hc⟩ := exists_json hv
  have hread := readValue_json v hv (2 * v.json.toList.length + 2) (by omega) [] closes_nil
  rw [List.append_nil] at hread
  rw [ofJson, hjson, skipJsonSpace_of_opens hc, ← hjson, hread]
  rfl

end Value

end MailFilter
