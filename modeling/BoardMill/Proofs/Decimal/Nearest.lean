import BoardMill.Proofs.Decimal.Plain
import BoardMill.Proofs.Decimal.Zeros
import BoardMill.Proofs.Scalar.Scientific

/-! # Plain decimals as doubles

The digits of a plain decimal denote a rational number, whatever the sign in front of them. It is
read as the double nearest to that number, with the sign, and it is refused if that is infinite.
Neither a plus nor zeros around the digits make a difference.
-/

namespace BoardMill.Decimal

/-- How many characters stand behind the first point. -/
def places (text : List Char) : Nat := (text.dropWhile (· != '.')).tail.length

/-- The number that the digits of a text write, with its point among them. -/
def magnitude (text : List Char) : ℚ := ofDigits (text.filter isDigit) / 10 ^ places text

/-- The number of a text as one of the type. -/
def valueOf {α : Type} [Scalar α] (text : List Char) : α :=
  OfScientific.ofScientific (ofDigits (text.filter isDigit)) true (places text)

/-- The double nearest to the number of a text, with the sign in front of it. -/
def Denotes (text : List Char) (x : Float) : Prop :=
  ∃ y, Double.IsNearest (magnitude text) y ∧ x = withSign (text.head? == some '-') y

variable {α : Type} [Scalar α] {text whole fraction : List Char} {value : α}

/-! ## Digits and places -/

theorem filter_isDigit_eq_self (h : ∀ c ∈ text, isDigit c = true) : text.filter isDigit = text :=
  List.filter_eq_self.mpr h

theorem places_append_of_not_mem (h : '.' ∉ whole) (text : List Char) :
    places (whole ++ text) = places text := by
  rw [places, places,
    List.dropWhile_append_of_pos fun c hc => bne_iff_ne.mpr (ne_of_mem_of_not_mem hc h)]

theorem places_append (h : '.' ∉ whole) (fraction : List Char) :
    places (whole ++ '.' :: fraction) = fraction.length :=
  places_append_of_not_mem h _

theorem places_eq_zero (h : '.' ∉ text) : places text = 0 := by
  rw [← List.append_nil text, places_append_of_not_mem h]
  rfl

theorem ofParts_nil (h : ∀ c ∈ text, isDigit c = true) : (ofParts text [] : α) = valueOf text := by
  rw [valueOf, filter_isDigit_eq_self h, places_eq_zero (point_not_mem h), ofParts, List.append_nil]
  rfl

theorem ofParts_eq_valueOf (hwhole : ∀ c ∈ whole, isDigit c = true)
    (hfraction : ∀ c ∈ fraction, isDigit c = true) :
    (ofParts whole fraction : α) = valueOf (whole ++ '.' :: fraction) := by
  rw [valueOf, List.filter_append, List.filter_cons_of_neg (by decide),
    filter_isDigit_eq_self hwhole, filter_isDigit_eq_self hfraction,
    places_append (point_not_mem hwhole)]
  rfl

theorem IsPointed.exists_parts (h : IsPointed text) :
    (text ≠ [] ∧ ∀ c ∈ text, isDigit c = true) ∨
    ∃ whole fraction, text = whole ++ '.' :: fraction ∧ ¬ (whole = [] ∧ fraction = []) ∧
      (∀ c ∈ whole, isDigit c = true) ∧ ∀ c ∈ fraction, isDigit c = true := by
  obtain ⟨c, hc, hdigit⟩ := h.digit
  by_cases hpoint : '.' ∈ text
  · obtain ⟨whole, fraction, rfl, hwhole⟩ := List.eq_append_cons_of_mem hpoint
    have hfraction : '.' ∉ fraction := by
      have hpoints := h.points
      rw [List.count_append, List.count_cons_self] at hpoints
      exact List.count_eq_zero.mp (by omega)
    refine .inr ⟨whole, fraction, rfl, ?_, fun c hc => ?_, fun c hc => ?_⟩
    · rintro ⟨rfl, rfl⟩
      obtain rfl := List.mem_singleton.mp hc
      cases hdigit
    · exact (h.marks c (by simp [hc])).resolve_right (ne_of_mem_of_not_mem hc hwhole)
    · exact (h.marks c (by simp [hc])).resolve_right (ne_of_mem_of_not_mem hc hfraction)
  · exact .inl ⟨List.ne_nil_of_mem hc, fun c hc =>
      (h.marks c hc).resolve_right (ne_of_mem_of_not_mem hc hpoint)⟩

/-- Digits with a point among them write one number. -/
theorem writesUnsigned_iff : WritesUnsigned text value ↔ IsPointed text ∧ value = valueOf text := by
  constructor
  · intro h
    refine ⟨h.isPointed, ?_⟩
    cases h with
    | whole hne hdigits => exact ofParts_nil hdigits
    | point hne hwhole hfraction => exact ofParts_eq_valueOf hwhole hfraction
  · rintro ⟨h, rfl⟩
    rcases h.exists_parts with ⟨hne, hdigits⟩ | ⟨whole, fraction, rfl, hne, hwhole, hfraction⟩
    · rw [← ofParts_nil hdigits]
      exact .whole hne hdigits
    · rw [← ofParts_eq_valueOf hwhole hfraction]
      exact .point hne hwhole hfraction

/-! ## Signs in front -/

theorem splitSign_fst (text : List Char) : (splitSign text).1 = (text.head? == some '-') := by
  unfold splitSign
  split
  next => rfl
  next => rfl
  next hminus _ =>
    cases text with
    | nil => rfl
    | cons c rest =>
        have hne : c ≠ '-' := fun heq => hminus rest (heq ▸ rfl)
        simpa using hne

theorem splitSign_append (h : text ≠ []) (more : List Char) :
    splitSign (text ++ more) = ((splitSign text).1, (splitSign text).2 ++ more) := by
  obtain ⟨c, rest, rfl⟩ := List.exists_cons_of_ne_nil h
  rw [List.cons_append]
  by_cases hminus : c = '-'
  · rw [hminus]
    rfl
  by_cases hplus : c = '+'
  · rw [hplus]
    rfl
  have hunsigned (rest : List Char) : ∀ d ∈ (c :: rest).head?, isSign d = false := by
    rintro d ⟨⟩
    simp [isSign, hminus, hplus]
  rw [splitSign_of_unsigned (hunsigned _), splitSign_of_unsigned (hunsigned _), List.cons_append]

theorem isCoordinate_iff : IsCoordinate text ↔ IsPointed (splitSign text).2 := by
  refine ⟨fun h => ?_, isCoordinate_of_splitSign⟩
  cases h with
  | bare h =>
      rwa [splitSign_of_unsigned fun c hc => h.isSign_eq_false c (List.mem_of_mem_head? hc)]
  | @signed sign rest hsign h =>
      rcases (Bool.or_eq_true _ _).mp hsign with hplus | hminus
      · rwa [beq_iff_eq.mp hplus]
      · rwa [beq_iff_eq.mp hminus]

/-- A sign has no effect on which number the digits behind it write. -/
theorem valueOf_splitSign (text : List Char) : (valueOf (splitSign text).2 : α) = valueOf text := by
  unfold splitSign
  split <;> rfl

theorem magnitude_splitSign (text : List Char) : magnitude (splitSign text).2 = magnitude text := by
  unfold splitSign
  split <;> rfl

theorem writesPlain_iff : WritesPlain text value ↔
    IsCoordinate text ∧ value = withSign (text.head? == some '-') (valueOf text) := by
  rw [← splitSign_fst, ← valueOf_splitSign]
  constructor
  · intro h
    refine ⟨h.isCoordinate, ?_⟩
    cases h with
    | bare h =>
        rw [h.splitSign_eq]
        exact (writesUnsigned_iff.mp h).2
    | plus h => exact (writesUnsigned_iff.mp h).2
    | minus h => exact congrArg (-·) (writesUnsigned_iff.mp h).2
  · rintro ⟨h, rfl⟩
    exact writesPlain_of_splitSign (writesUnsigned_iff.mpr ⟨isCoordinate_iff.mp h, rfl⟩)

/-! ## Nearest doubles -/

variable {x : Float}

theorem denotes_iff :
    Denotes text x ↔ x = withSign (text.head? == some '-') (valueOf text) := by
  have hnearest (y : Float) : Double.IsNearest (magnitude text) y ↔ y = valueOf text :=
    Double.isNearest_iff
  simp only [Denotes, hnearest, exists_eq_left]

theorem readPlain?_iff_denotes : readPlain? text = some x ↔
    IsCoordinate text ∧ Denotes text x ∧ Scalar.isFinite x = true := by
  rw [readPlain?_eq_some_iff, writesPlain_iff, denotes_iff, and_assoc]

/-- Two texts are read alike if they have the same sign and behind it the same number, or none. -/
theorem readPlain?_congr {other : List Char} (hsign : (splitSign text).1 = (splitSign other).1)
    (hpointed : IsPointed (splitSign text).2 ↔ IsPointed (splitSign other).2)
    (hmagnitude : magnitude (splitSign text).2 = magnitude (splitSign other).2) :
    (readPlain? text : Option Float) = readPlain? other := by
  rw [magnitude_splitSign, magnitude_splitSign] at hmagnitude
  refine Option.ext fun x => ?_
  simp only [readPlain?_iff_denotes, isCoordinate_iff, Denotes, ← splitSign_fst, hsign, hpointed,
    hmagnitude]

/-! ## Zeros around the digits -/

theorem isPointed_zeros_append {digits : List Char} (h : ∃ c ∈ digits, isDigit c = true) (k : Nat) :
    IsPointed (zeros k ++ digits) ↔ IsPointed digits := by
  have hpoints : (zeros k ++ digits).count '.' = digits.count '.' := by
    rw [List.count_append,
      List.count_eq_zero_of_not_mem (point_not_mem isDigit_of_mem_zeros), zero_add]
  refine ⟨fun hpointed => ⟨fun c hc => hpointed.marks c (List.mem_append_right _ hc),
    hpoints ▸ hpointed.points, h⟩, fun hpointed => ⟨fun c hc => ?_, hpoints ▸ hpointed.points, ?_⟩⟩
  · rcases List.mem_append.mp hc with hzero | hc
    · exact .inl (isDigit_of_mem_zeros c hzero)
    · exact hpointed.marks c hc
  · obtain ⟨c, hc, hdigit⟩ := h
    exact ⟨c, List.mem_append_right _ hc, hdigit⟩

theorem IsPointed.perm {other : List Char} (h : IsPointed text) (hperm : text.Perm other) :
    IsPointed other where
  marks c hc := h.marks c (hperm.mem_iff.mpr hc)
  points := hperm.count_eq '.' ▸ h.points
  digit := by
    obtain ⟨c, hc, hdigit⟩ := h.digit
    exact ⟨c, hperm.mem_iff.mp hc, hdigit⟩

theorem isPointed_append_zeros {digits : List Char} (h : ∃ c ∈ digits, isDigit c = true) (k : Nat) :
    IsPointed (digits ++ zeros k) ↔ IsPointed digits := by
  rw [← isPointed_zeros_append h k]
  exact ⟨fun h => h.perm List.perm_append_comm, fun h => h.perm List.perm_append_comm⟩

theorem magnitude_zeros_append (k : Nat) (digits : List Char) :
    magnitude (zeros k ++ digits) = magnitude digits := by
  rw [magnitude, magnitude, List.filter_append, filter_isDigit_eq_self isDigit_of_mem_zeros,
    ofDigits_zeros_append, places_append_of_not_mem (point_not_mem isDigit_of_mem_zeros)]

theorem magnitude_append_zeros (hpoint : '.' ∈ text) (k : Nat) :
    magnitude (text ++ zeros k) = magnitude text := by
  obtain ⟨whole, fraction, rfl, hwhole⟩ := List.eq_append_cons_of_mem hpoint
  rw [magnitude, magnitude, List.filter_append, filter_isDigit_eq_self isDigit_of_mem_zeros,
    ofDigits_append_zeros, List.append_assoc, List.cons_append, places_append hwhole,
    places_append hwhole, List.length_append, length_zeros, pow_add]
  push_cast
  exact mul_div_mul_right _ _ (by positivity)

/-- Zeros in front of a number are skipped, behind a sign as well. -/
theorem readPlain?_zeros_append {sign : Option Char} (hsign : ∀ c ∈ sign, isSign c = true)
    {digits : List Char} (h : ∃ c ∈ digits, isDigit c = true)
    (hunsigned : ∀ c ∈ digits.head?, isSign c = false) (k : Nat) :
    (readPlain? (sign.toList ++ (zeros k ++ digits)) : Option Float) =
      readPlain? (sign.toList ++ digits) := by
  have hzeros : ∀ c ∈ (zeros k ++ digits).head?, isSign c = false := by
    cases k with
    | zero => exact hunsigned
    | succ k =>
        rintro c ⟨⟩
        rfl
  apply readPlain?_congr
  all_goals rw [splitSign_toList_append hsign hzeros, splitSign_toList_append hsign hunsigned]
  · exact isPointed_zeros_append h k
  · exact magnitude_zeros_append k digits

/-- Zeros behind a point are skipped. -/
theorem readPlain?_append_zeros (hpoint : '.' ∈ text) (h : ∃ c ∈ text, isDigit c = true) (k : Nat) :
    (readPlain? (text ++ zeros k) : Option Float) = readPlain? text := by
  have hsplit := splitSign_append (List.ne_nil_of_mem hpoint) (zeros k)
  have hdigit : ∃ c ∈ (splitSign text).2, isDigit c = true := by
    obtain ⟨c, hc, hdigit⟩ := h
    refine ⟨c, ?_, hdigit⟩
    unfold splitSign
    split
    next => exact List.mem_of_ne_of_mem (by rintro rfl; cases hdigit) hc
    next => exact List.mem_of_ne_of_mem (by rintro rfl; cases hdigit) hc
    next => exact hc
  apply readPlain?_congr
  · rw [hsplit]
  · rw [hsplit]
    exact isPointed_append_zeros hdigit k
  · rw [magnitude_splitSign, magnitude_splitSign]
    exact magnitude_append_zeros hpoint k

/-! ## Signs in front of a number -/

theorem readPlain?_cons_plus (h : ∀ c ∈ text.head?, isSign c = false) :
    (readPlain? ('+' :: text) : Option Float) = readPlain? text := by
  apply readPlain?_congr
  all_goals rw [splitSign_of_unsigned h]; rfl

theorem readPlain?_cons_minus (h : ∀ c ∈ text.head?, isSign c = false) :
    (readPlain? ('-' :: text) : Option Float) = (readPlain? text).map (-·) := by
  have hcoordinate : IsCoordinate ('-' :: text) ↔ IsCoordinate text := by
    rw [isCoordinate_iff, isCoordinate_iff, splitSign_of_unsigned h]
    rfl
  have hbare (x : Float) : Denotes text x ↔ Double.IsNearest (magnitude text) x := by
    rw [Denotes, ← splitSign_fst, splitSign_of_unsigned h]
    exact exists_eq_right'
  refine Option.ext fun x => ?_
  rw [Option.map_eq_some_iff]
  constructor
  · intro hread
    obtain ⟨hshape, ⟨y, hy, rfl⟩, hfinite⟩ := readPlain?_iff_denotes.mp hread
    exact ⟨y, readPlain?_iff_denotes.mpr
      ⟨hcoordinate.mp hshape, (hbare y).mpr hy, (Double.isFinite_neg y).symm.trans hfinite⟩, rfl⟩
  · rintro ⟨y, hread, rfl⟩
    obtain ⟨hshape, hy, hfinite⟩ := readPlain?_iff_denotes.mp hread
    exact readPlain?_iff_denotes.mpr ⟨hcoordinate.mpr hshape, ⟨y, (hbare y).mp hy, rfl⟩,
      (Double.isFinite_neg y).trans hfinite⟩

/-- A text denotes one double. It is read as that double exactly if it is a plain decimal and the
double is finite. Neither a plus in front of the number nor zeros around its digits make a
difference, and a minus changes its sign. -/
theorem readPlain?_eq_nearest (text : List Char) :
    (∃! x, Denotes text x) ∧
    (∀ x : Float, readPlain? text = some x ↔
      IsCoordinate text ∧ Denotes text x ∧ Scalar.isFinite x = true) ∧
    (∀ x : Float, readPlain? text = some x →
      Double.value x ≠ .notANumber ∧ ∀ s, Double.value x ≠ .infinity s) ∧
    ((∀ c ∈ text.head?, isSign c = false) →
      (readPlain? ('+' :: text) : Option Float) = readPlain? text ∧
      (readPlain? ('-' :: text) : Option Float) = (readPlain? text).map (-·)) ∧
    ((∀ c ∈ text.head?, isSign c = false) → (∃ c ∈ text, isDigit c = true) →
      ∀ (sign : Option Char) (k : Nat), (∀ c ∈ sign, isSign c = true) →
        (readPlain? (sign.toList ++ (zeros k ++ text)) : Option Float) =
          readPlain? (sign.toList ++ text)) ∧
    ('.' ∈ text → (∃ c ∈ text, isDigit c = true) →
      ∀ k : Nat, (readPlain? (text ++ zeros k) : Option Float) = readPlain? text) := by
  refine ⟨⟨_, denotes_iff.mpr rfl, fun x h => denotes_iff.mp h⟩, fun x => readPlain?_iff_denotes,
    fun x h => ?_, fun h => ⟨readPlain?_cons_plus h, readPlain?_cons_minus h⟩,
    fun hunsigned h sign k hsign => readPlain?_zeros_append hsign h hunsigned k,
    fun hpoint h k => readPlain?_append_zeros hpoint h k⟩
  have hfinite := (readPlain?_iff_denotes.mp h).2.2
  rw [Double.isFinite_eq] at hfinite
  constructor
  · intro hvalue
    rw [hvalue] at hfinite
    cases hfinite
  · intro s hvalue
    rw [hvalue] at hfinite
    cases hfinite

/-- A half is read with a minus in front, and with zeros before its point and behind its digit. -/
theorem readPlain?_half :
    (readPlain? ['.', '5'] : Option Float) = some 0.5 ∧
    Denotes ['.', '5'] 0.5 ∧
    (readPlain? ['-', '.', '5'] : Option Float) = some (-0.5) ∧
    (readPlain? ['-', '0', '0', '.', '5'] : Option Float) = some (-0.5) ∧
    (readPlain? ['.', '5', '0', '0'] : Option Float) = some 0.5 := by
  have hhalf : (readPlain? ['.', '5'] : Option Float) = some 0.5 := rfl
  have hunsigned : ∀ c ∈ ['.', '5'].head?, isSign c = false := by rintro c ⟨⟩; rfl
  have hdigit : ∃ c ∈ ['.', '5'], isDigit c = true := ⟨'5', by simp, rfl⟩
  obtain ⟨-, hread, -, hsigns, hfront, hbehind⟩ := readPlain?_eq_nearest ['.', '5']
  have hminus := (hsigns hunsigned).2
  rw [hhalf] at hminus
  exact ⟨hhalf, ((hread 0.5).mp hhalf).2.1, hminus,
    (hfront hunsigned hdigit (some '-') 2 (by rintro c ⟨⟩; rfl)).trans hminus,
    (hbehind (by simp) hdigit 2).trans hhalf⟩

end BoardMill.Decimal
