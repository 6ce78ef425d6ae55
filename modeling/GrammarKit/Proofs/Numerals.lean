import GrammarKit.Number.Numeral
import GrammarKit.Proofs.Lexing

/-!
# Decimal numerals are read back

Decimal digits, with or without a sign, spell their number as long as there are not
too many of them, and otherwise they are refused for this reason.  No integer that is
read from any text has too many digits itself, so its decimal text is read back.

## Main Statements

* `Numeral.digitRun?_of_digitChars` — a run of decimal digits gives their values
* `Numeral.integer_of_digitChars` — what becomes of decimal digits with a sign
* `Numeral.int?_toString` — the text of an integer that was read spells it
-/

namespace GrammarKit.Numeral

variable {c : Char} {cs : List Char}

/-- The decimal digits. -/
def digitChars : List Char :=
  "0123456789".toList

theorem mem_digitChars (h : c.isDigit = true) : c ∈ digitChars := by
  have small : ∀ n : Fin 128, (Char.ofNat n).isDigit = true → Char.ofNat n ∈ digitChars := by
    decide
  have ascii : c.toNat < 128 := by
    simp only [Char.isDigit, Bool.and_eq_true, decide_eq_true_eq, UInt32.le_iff_toNat_le] at h
    exact Nat.lt_of_le_of_lt h.2 (by decide)
  have both := small ⟨c.toNat, ascii⟩
  simp only [Char.ofNat_toNat] at both
  exact both h

/-- What is known of a decimal digit. -/
theorem digitChars_spec : ∀ c ∈ digitChars, Text.isBlank c = false ∧
    Text.digitValue? c = some (c.toNat - '0'.toNat) ∧ c ≠ '_' ∧ c ≠ '-' ∧ c ≠ '+' := by
  decide

/-- Natural numbers have decimal digits. -/
theorem toDigits_digitChars (n : Nat) : ∀ c ∈ Nat.toDigits 10 n, c ∈ digitChars :=
  fun _ mem => mem_digitChars (Nat.isDigit_of_mem_toDigits (by decide) (by decide) mem)

theorem toList_toString_ofNat (n : Nat) : (toString (Int.ofNat n)).toList = Nat.toDigits 10 n :=
  String.toList_ofList

theorem toList_toString_negSucc (n : Nat) :
    (toString (Int.negSucc n)).toList = '-' :: Nat.toDigits 10 (n + 1) := by
  show ("-" ++ String.ofList (Nat.toDigits 10 (n + 1))).toList = _
  rw [String.toList_append]
  show '-' :: (String.ofList _).toList = _
  rw [String.toList_ofList]

/-- Where nothing is blank there is nothing to trim. -/
theorem trim_of_noBlank (h : ∀ c ∈ cs, Text.isBlank c = false) : trim cs = cs := by
  have keeps : ∀ cs : List Char, (∀ c ∈ cs, Text.isBlank c = false) →
      cs.dropWhile Text.isBlank = cs := by
    intro cs noBlank
    cases cs with
    | nil => rfl
    | cons c rest =>
        rw [List.dropWhile_cons_of_neg (by rw [noBlank c List.mem_cons_self]; exact Bool.false_ne_true)]
  rw [trim, keeps cs h, keeps cs.reverse fun c mem => h c (List.mem_reverse.mp mem),
    List.reverse_reverse]

/-- A run of decimal digits gives their values. -/
theorem digitRun?_of_digitChars {cs : List Char} (filled : cs ≠ []) (h : ∀ c ∈ cs, c ∈ digitChars) :
    digitRun? cs = some (cs.map fun c => c.toNat - '0'.toNat) := by
  match cs with
  | [] => exact (filled rfl).elim
  | [c] =>
      rw [digitRun?, (digitChars_spec c (h c List.mem_cons_self)).2.1]
      rfl
  | c :: d :: rest =>
      have here := (digitChars_spec c (h c List.mem_cons_self)).2.1
      have next := (digitChars_spec d (h d (by simp))).2.2.1
      have others := digitRun?_of_digitChars (List.cons_ne_nil d rest)
        fun e mem => h e (List.mem_cons_of_mem c mem)
      rw [digitRun?, here, others]
      · rfl
      · exact List.cons_ne_nil d rest
      · exact fun _ same => next (List.cons.inj same).1

/-- The number that decimal digits spell. -/
theorem ofDigits_map (cs : List Char) :
    ofDigits (cs.map fun c => c.toNat - '0'.toNat) = Nat.ofDigitChars 10 cs 0 := by
  rw [ofDigits, List.foldl_map]
  rfl

/-- Digits have no sign before them. -/
theorem splitSign_of_digitChars (h : ∀ c ∈ cs, c ∈ digitChars) : splitSign cs = (false, cs) := by
  unfold splitSign
  split
  · rename_i rest
    exact ((digitChars_spec '-' (h '-' List.mem_cons_self)).2.2.2.1 rfl).elim
  · rename_i rest
    exact ((digitChars_spec '+' (h '+' List.mem_cons_self)).2.2.2.2 rfl).elim
  · rfl

theorem splitSign_toDigits (n : Nat) :
    splitSign (Nat.toDigits 10 n) = (false, Nat.toDigits 10 n) :=
  splitSign_of_digitChars (toDigits_digitChars n)

/-! ### Integers -/

/-- A run takes in all decimal digits, and nothing is left behind them. -/
theorem run_of_digitChars (h : ∀ c ∈ cs, c ∈ digitChars) :
    cs.takeWhile isRunChar = cs ∧ cs.dropWhile isRunChar = [] := by
  have inRun : ∀ c ∈ cs, isRunChar c = true := by
    intro c mem
    rw [isRunChar, (digitChars_spec c (h c mem)).2.1]
    rfl
  have all := @List.takeWhile_append_of_pos _ isRunChar cs [] inRun
  have behind := @List.dropWhile_append_of_pos _ isRunChar cs [] inRun
  simp only [List.append_nil, List.takeWhile_nil, List.dropWhile_nil] at all behind
  exact ⟨all, behind⟩

/-- **Decimal digits with a sign** spell their number, unless there are too many of
them. -/
theorem integer_of_digitChars {s : String} {negative : Bool}
    (noBlank : ∀ c ∈ s.toList, Text.isBlank c = false)
    (split : splitSign s.toList = (negative, cs)) (filled : cs ≠ [])
    (h : ∀ c ∈ cs, c ∈ digitChars) :
    integer s =
      if maxDigits < cs.length then .error (.tooManyDigits cs.length)
      else .ok (if negative then -(Nat.ofDigitChars 10 cs 0 : Int)
        else Nat.ofDigitChars 10 cs 0) := by
  obtain ⟨all, behind⟩ := run_of_digitChars h
  have read : natural s cs =
      if maxDigits < cs.length then .error (.tooManyDigits cs.length)
      else .ok (Nat.ofDigitChars 10 cs 0) := by
    rw [natural, all, behind, digitRun?_of_digitChars filled h, ← ofDigits_map]
    simp
  rw [integer, trim_of_noBlank noBlank, split]
  show (natural s cs).map _ = _
  rw [read]
  by_cases many : maxDigits < cs.length
  · rw [if_pos many, if_pos many]
    rfl
  · rw [if_neg many, if_neg many]
    rfl

/-- One more value in front of a run is decimal as well. -/
theorem decimal_cons {run? : Option (List Nat)} {digits : List Nat}
    (h : ((Text.digitValue? c).bind fun d => run?.map (d :: ·)) = some digits)
    (others : ∀ run, run? = some run → ∀ d ∈ run, d < 10) :
    digits ≠ [] ∧ ∀ d ∈ digits, d < 10 := by
  obtain ⟨d, value, h⟩ := Option.bind_eq_some_iff.mp h
  obtain ⟨run, read, rfl⟩ := Option.map_eq_some_iff.mp h
  exact ⟨List.cons_ne_nil d run,
    List.forall_mem_cons.mpr ⟨Text.digitValue?_lt value, others run read⟩⟩

/-- The values of a run are decimal, and there is at least one. -/
theorem digitRun?_eq_some {digits : List Nat} (h : digitRun? cs = some digits) :
    digits ≠ [] ∧ ∀ d ∈ digits, d < 10 := by
  fun_induction digitRun? cs generalizing digits with
  | case1 => cases h
  | case2 c =>
      obtain ⟨d, value, rfl⟩ := Option.map_eq_some_iff.mp h
      exact ⟨List.cons_ne_nil d [], List.forall_mem_singleton.mpr (Text.digitValue?_lt value)⟩
  | case3 c rest ih => exact decimal_cons h fun run read => (ih read).2
  | case4 c rest _ _ ih => exact decimal_cons h fun run read => (ih read).2

/-- Decimal digits spell less than the power of ten that has one zero for each. -/
theorem ofDigits_lt {digits : List Nat} (h : ∀ d ∈ digits, d < 10) :
    ofDigits digits < Decimal.tenTo digits.length := by
  have grows : ∀ (digits : List Nat) (n k : Nat), (∀ d ∈ digits, d < 10) →
      n < Decimal.tenTo k → digits.foldl (fun n d => 10 * n + d) n <
        Decimal.tenTo (k + digits.length) := by
    intro digits
    induction digits with
    | nil => exact fun n k _ below => below
    | cons d rest ih =>
        intro n k decimal below
        obtain ⟨here, others⟩ := List.forall_mem_cons.mp decimal
        have next : 10 * n + d < Decimal.tenTo (k + 1) := by
          have same : Decimal.tenTo (k + 1) = Decimal.tenTo k * 10 := rfl
          omega
        have all := ih (10 * n + d) (k + 1) others next
        rwa [Nat.add_assoc, Nat.add_comm 1] at all
  have all := grows digits 0 0 h (by decide)
  rwa [Nat.zero_add] at all

/-- A number is read from decimal values that are not too many. -/
theorem natural_eq_ok {text : String} {m : Nat} (h : natural text cs = .ok m) :
    ∃ digits, digits ≠ [] ∧ (∀ d ∈ digits, d < 10) ∧ digits.length ≤ maxDigits ∧
      ofDigits digits = m := by
  rw [natural] at h
  split at h
  · cases h
  · rename_i digits run
    obtain ⟨filled, decimal⟩ := digitRun?_eq_some run
    split at h
    · cases h
    · rename_i few
      split at h
      · cases h
        exact ⟨digits, filled, decimal, Nat.le_of_not_lt few, rfl⟩
      · cases h

/-- **No integer that is read has too many digits.** -/
theorem length_toDigits_of_int? {s : String} {n : Int} (h : int? s = some n) :
    (Nat.toDigits 10 n.natAbs).length ≤ maxDigits := by
  rw [int?, integer] at h
  cases read : natural s (splitSign (trim s.toList)).2 with
  | error e => simp [read, Except.map, Except.toOption] at h
  | ok m =>
      simp only [read, Except.map, Except.toOption, Option.some.injEq] at h
      obtain ⟨digits, filled, decimal, few, spelled⟩ := natural_eq_ok read
      have same : n.natAbs = ofDigits digits := by
        rw [spelled, ← h]
        split <;> simp
      rw [same]
      refine Nat.le_trans ?_ few
      exact (Nat.length_toDigits_le_iff (by decide) (List.length_pos_iff.mpr filled)).mpr
        (ofDigits_lt decimal)

/-- **The decimal text of an integer spells it**, if it has not too many digits. -/
theorem int?_toString {n : Int} (few : (Nat.toDigits 10 n.natAbs).length ≤ maxDigits) :
    int? (toString n) = some n := by
  have noBlank : ∀ (m : Nat), ∀ c ∈ Nat.toDigits 10 m, Text.isBlank c = false :=
    fun m c mem => (digitChars_spec c (toDigits_digitChars m c mem)).1
  cases n with
  | ofNat m =>
      have text := toList_toString_ofNat m
      have read := @integer_of_digitChars (Nat.toDigits 10 m) (toString (Int.ofNat m)) false
        (text ▸ noBlank m) (text ▸ splitSign_toDigits m) Nat.toDigits_ne_nil
        (toDigits_digitChars m)
      have notMany : ¬ maxDigits < (Nat.toDigits 10 m).length := Nat.not_lt.mpr few
      rw [int?, read, if_neg notMany, Nat.ofDigitChars_ten_toDigits]
      rfl
  | negSucc m =>
      have text := toList_toString_negSucc m
      have read := @integer_of_digitChars (Nat.toDigits 10 (m + 1)) (toString (Int.negSucc m)) true
        (text ▸ List.forall_mem_cons.mpr ⟨by decide, noBlank (m + 1)⟩) (by rw [text]; rfl)
        Nat.toDigits_ne_nil (toDigits_digitChars (m + 1))
      have notMany : ¬ maxDigits < (Nat.toDigits 10 (m + 1)).length := Nat.not_lt.mpr few
      rw [int?, read, if_neg notMany, Nat.ofDigitChars_ten_toDigits]
      rfl

end GrammarKit.Numeral
