import BoardMill.Proofs.Decimal.Plain
import BoardMill.Proofs.Gerber.ReaderSteps
import BoardMill.Proofs.Splits

/-! # The grammar of words

A word is a stop code, or a preparation code with fields behind it, or fields alone. Whatever a
reading is at, a word that it accepts is one of these, with one freedom that the grammar of words
need not have: a stop code and an operation code are written with a plus in front if one likes.
-/

namespace BoardMill.Gerber

open Decimal (Writes WritesPlussed IsCoordinate isDigit isSign)
open Outcome

/-- A field is an operation code or a coordinate, behind its key. `IsCode` tells how codes are
written. -/
inductive IsField (IsCode : List Char → Nat → Prop) : Char × List Char → Prop
  | code {value : List Char} {n : Nat} (h : IsCode value n) : IsField IsCode ('D', value)
  | coordinate {key : Char} {value : List Char} (hkey : key ∈ ['X', 'Y', 'I', 'J'])
    (h : IsCoordinate value) : IsField IsCode (key, value)

/-- Fields in any order, none of them twice. -/
structure AreFields (IsCode : List Char → Nat → Prop) (fields : List (Char × List Char)) :
    Prop where
  nodup : (fields.map Prod.fst).Nodup
  each : ∀ f ∈ fields, IsField IsCode f

def fieldsText (fields : List (Char × List Char)) : List Char := fields.flatMap fun f => f.1 :: f.2

/-- The preparation codes that are understood. -/
def preparationCodes : List Nat := [1, 2, 3, 36, 37, 54, 55, 70, 71, 74, 75, 90]

/-- The grammar of words. `IsCode` tells how stop codes and operation codes are written. -/
inductive IsWord (IsCode : List Char → Nat → Prop) : List Char → Prop
  | stop {value : List Char} {n : Nat} (hn : n ≤ 2) (h : IsCode value n) :
      IsWord IsCode ('M' :: value)
  | prepared {digits : List Char} {n : Nat} {fields : List (Char × List Char)}
    (hn : n ∈ preparationCodes) (hdigits : Writes digits n) (h : AreFields IsCode fields) :
    IsWord IsCode ('G' :: digits ++ fieldsText fields)
  | fields {fields : List (Char × List Char)} (hne : fields ≠ []) (h : AreFields IsCode fields) :
    IsWord IsCode (fieldsText fields)

theorem fieldsText_append (first second : List (Char × List Char)) :
    fieldsText (first ++ second) = fieldsText first ++ fieldsText second :=
  List.flatMap_append

theorem fieldsText_cons (f : Char × List Char) (rest : List (Char × List Char)) :
    fieldsText (f :: rest) = f.1 :: f.2 ++ fieldsText rest :=
  List.flatMap_cons

/-! ## Where signs stand -/

/-- Every sign stands directly behind one of some keys. -/
def SignsBehind (keys text : List Char) : Prop :=
  ∀ before c after, text = before ++ c :: after → isSign c = true →
    ∃ key ∈ keys, before.getLast? = some key

namespace SignsBehind

variable {keys first second text : List Char}

theorem of_unsigned (h : ∀ c ∈ text, isSign c = false) : SignsBehind keys text := by
  rintro before c after rfl hsign
  rw [h c (by simp)] at hsign
  cases hsign

theorem append (hfirst : SignsBehind keys first) (hsecond : SignsBehind keys second) :
    SignsBehind keys (first ++ second) := by
  unfold SignsBehind
  rw [forall_split_append]
  refine ⟨hfirst, fun before c after hsplit hsign => ?_⟩
  obtain ⟨key, hkey, hlast⟩ := hsecond before c after hsplit hsign
  exact ⟨key, hkey, by rw [List.getLast?_append, hlast, Option.some_or]⟩

/-- A sign may stand first behind a key. -/
theorem coordinate {key : Char} (hkey : key ∈ keys) (hunsigned : isSign key = false)
    (h : IsCoordinate text) : SignsBehind keys (key :: text) := by
  cases h with
  | bare hpointed =>
      exact of_unsigned (List.forall_mem_cons.mpr ⟨hunsigned, hpointed.isSign_eq_false⟩)
  | signed hsign hpointed =>
      unfold SignsBehind
      rw [forall_split_cons, forall_split_cons]
      refine ⟨fun hsign => ?_, fun _ => ⟨key, hkey, rfl⟩, ?_⟩
      · rw [hunsigned] at hsign
        cases hsign
      · rintro before c after rfl hsign
        rw [hpointed.isSign_eq_false c (by simp)] at hsign
        cases hsign

/-- Behind another key there is no sign. -/
theorem false_of_split (before : List Char) {after : List Char} {key sign : Char}
    (h : SignsBehind keys (before ++ key :: sign :: after)) (hkey : key ∉ keys)
    (hsign : isSign sign = true) : False := by
  obtain ⟨found, hfound, hlast⟩ := h (before ++ [key]) sign after (by simp) hsign
  rw [List.getLast?_concat] at hlast
  cases hlast
  exact hkey hfound

end SignsBehind

theorem signsBehind_fieldsText {fields : List (Char × List Char)}
    (h : ∀ f ∈ fields, IsField Writes f) :
    SignsBehind ['X', 'Y', 'I', 'J'] (fieldsText fields) := by
  induction fields with
  | nil => exact .of_unsigned nofun
  | cons f rest ih =>
      obtain ⟨hf, hrest⟩ := List.forall_mem_cons.mp h
      rw [fieldsText_cons]
      refine .append ?_ (ih hrest)
      cases hf with
      | code hvalue =>
          exact .of_unsigned (List.forall_mem_cons.mpr ⟨rfl, hvalue.isSign_eq_false⟩)
      | coordinate hkey hvalue =>
          have hletters : ∀ key ∈ ['X', 'Y', 'I', 'J'], isSign key = false := by simp [isSign]
          exact .coordinate hkey (hletters _ hkey) hvalue

section Signs

variable {IsCode IsOther : List Char → Nat → Prop} {fields : List (Char × List Char)}

theorem IsField.imp (himp : ∀ value n, IsCode value n → IsOther value n) {f : Char × List Char}
    (h : IsField IsCode f) : IsField IsOther f := by
  cases h with
  | code hvalue => exact .code (himp _ _ hvalue)
  | coordinate hkey hvalue => exact .coordinate hkey hvalue

theorem AreFields.imp (himp : ∀ value n, IsCode value n → IsOther value n)
    (h : AreFields IsCode fields) : AreFields IsOther fields :=
  ⟨h.nodup, fun f hf => (h.each f hf).imp himp⟩

theorem IsWord.imp (himp : ∀ value n, IsCode value n → IsOther value n) {text : List Char}
    (h : IsWord IsCode text) : IsWord IsOther text := by
  cases h with
  | stop hn hvalue => exact .stop hn (himp _ _ hvalue)
  | prepared hn hdigits hfields => exact .prepared hn hdigits (hfields.imp himp)
  | fields hne hfields => exact .fields hne (hfields.imp himp)

/-- Fields whose signs are all of coordinates have an operation code without a sign. -/
theorem AreFields.of_signsBehind (front : List Char) (h : AreFields WritesPlussed fields)
    (hsigns : SignsBehind ['X', 'Y', 'I', 'J'] (front ++ fieldsText fields)) :
    AreFields Writes fields := by
  refine ⟨h.nodup, fun f hf => ?_⟩
  obtain ⟨before, after, rfl⟩ := List.append_of_mem hf
  rcases h.each f hf with ⟨hvalue⟩ | ⟨hkey, hvalue⟩
  · cases hvalue with
    | bare hwrites => exact .code hwrites
    | plus hwrites =>
        have hkey : 'D' ∉ ['X', 'Y', 'I', 'J'] := by decide
        rw [fieldsText_append, fieldsText_cons, ← List.append_assoc] at hsigns
        exact (hsigns.false_of_split _ hkey rfl).elim
  · exact .coordinate hkey hvalue

end Signs

theorem IsWord.signsBehind {text : List Char} (h : IsWord Writes text) :
    SignsBehind ['X', 'Y', 'I', 'J'] text := by
  cases h with
  | stop hn hvalue =>
      exact .of_unsigned (List.forall_mem_cons.mpr ⟨rfl, hvalue.isSign_eq_false⟩)
  | prepared hn hdigits hfields =>
      refine .append (.of_unsigned ?_) (signsBehind_fieldsText hfields.each)
      exact List.forall_mem_cons.mpr ⟨rfl, hdigits.isSign_eq_false⟩
  | fields hne hfields => exact signsBehind_fieldsText hfields.each

/-- Words whose codes are written without a sign are those whose signs are all of coordinates. -/
theorem isWord_writes_iff {text : List Char} :
    IsWord Writes text ↔ IsWord WritesPlussed text ∧ SignsBehind ['X', 'Y', 'I', 'J'] text := by
  constructor
  · exact fun h => ⟨h.imp fun _ _ => .bare, h.signsBehind⟩
  · rintro ⟨hword, hsigns⟩
    cases hword with
    | stop hn hvalue =>
        cases hvalue with
        | bare hwrites => exact .stop hn hwrites
        | plus hwrites => exact (hsigns.false_of_split [] (by decide) rfl).elim
    | prepared hn hdigits hfields => exact .prepared hn hdigits (hfields.of_signsBehind _ hsigns)
    | fields hne hfields => exact .fields hne (hfields.of_signsBehind [] hsigns)

/-! ## The fields of a text -/

namespace Fields

/-- Whether there is a field with a key. -/
def has (f : Fields) : Char → Bool
  | 'X' => f.x.isSome
  | 'Y' => f.y.isSome
  | 'I' => f.i.isSome
  | 'J' => f.j.isSome
  | 'D' => f.d.isSome
  | _ => false

/-- What is read of a field that is written. -/
inductive Holds (f : Fields) : Char × List Char → Prop
  | x {value : List Char} (h : f.x = some value) : Holds f ('X', value)
  | y {value : List Char} (h : f.y = some value) : Holds f ('Y', value)
  | i {value : List Char} (h : f.i = some value) : Holds f ('I', value)
  | j {value : List Char} (h : f.j = some value) : Holds f ('J', value)
  | d {value : List Char} {code : Nat} (h : f.d = some code)
    (hread : Decimal.readWord32? value = some code) : Holds f ('D', value)

variable {f g : Fields}

theorem fill?_eq_some {β : Type} {open? filled : Option β} {value : β}
    (h : fill? open? value = some filled) : open? = .none ∧ filled = some value := by
  cases open? with
  | none => exact ⟨rfl, (Option.some.inj h).symm⟩
  | some _ => cases h

theorem Holds.has {p : Char × List Char} (h : f.Holds p) : f.has p.1 = true := by
  cases h <;> simp_all [Fields.has]

/-- One set of fields has a field more than another one. -/
structure Adds (f : Fields) (p : Char × List Char) (g : Fields) : Prop where
  has_eq : f.has p.1 = false
  holds : g.Holds p
  keeps_has : ∀ key, f.has key = true → g.has key = true
  keeps : ∀ q, f.Holds q → g.Holds q

/-- Adding a field leaves the others alone. -/
theorem Adds.of_others {p : Char × List Char} (hp : f.has p.1 = false) (hnew : g.Holds p)
    (hhas : ∀ key ≠ p.1, f.has key = g.has key)
    (hholds : ∀ q : Char × List Char, q.1 ≠ p.1 → f.Holds q → g.Holds q) : f.Adds p g where
  has_eq := hp
  holds := hnew
  keeps_has key hkey := by
    rw [← hhas key (fun hsame => ?_), hkey]
    rw [← hsame, hkey] at hp
    cases hp
  keeps q hq := by
    refine hholds q (fun hsame => ?_) hq
    rw [← hsame, hq.has] at hp
    cases hp

theorem adds_of_add? {key : Char} {value : List Char} (h : f.add? key value = some g) :
    f.Adds (key, value) g := by
  unfold add? at h
  split at h
  case h_5 =>
    obtain ⟨code, hread, h⟩ := Option.bind_eq_some_iff.mp h
    obtain ⟨filled, hfill, h⟩ := Option.bind_eq_some_iff.mp h
    obtain ⟨hopen, rfl⟩ := fill?_eq_some hfill
    cases h
    refine .of_others (by simp [has, hopen]) (.d rfl hread) (fun key hkey => ?_) fun q hq hheld => ?_
    · unfold has
      split <;> first | rfl | exact absurd rfl hkey
    · cases hheld <;> first | exact absurd rfl hq | (constructor; assumption)
  case h_6 => cases h
  all_goals
    obtain ⟨filled, hfill, rfl⟩ := Option.map_eq_some_iff.mp h
    obtain ⟨hopen, rfl⟩ := fill?_eq_some hfill
    refine .of_others (by simp [has, hopen]) (by constructor; rfl) (fun key hkey => ?_)
      fun q hq hheld => ?_
    · unfold has
      split <;> first | rfl | exact absurd rfl hkey
    · cases hheld <;> first | exact absurd rfl hq | (constructor <;> assumption)

theorem splitValue_append (text : List Char) :
    (splitValue text).1 ++ (splitValue text).2 = text := by
  rw [splitValue, List.append_assoc, List.takeWhile_append_dropWhile, List.take_append_drop]

/-- Fields that are read stand in the text one behind the other, none of them twice. -/
theorem exists_of_read? {text : List Char} (h : f.read? text = some g) :
    ∃ fields, text = fieldsText fields ∧ (fields.map Prod.fst).Nodup ∧
      (∀ p ∈ fields, f.has p.1 = false ∧ g.Holds p) ∧ ∀ p, f.Holds p → g.Holds p := by
  fun_induction read? f text with
  | case1 f =>
      cases h
      exact ⟨[], rfl, List.nodup_nil, nofun, fun _ => id⟩
  | case2 => cases h
  | case3 f key rest split _ next hadd ih =>
      obtain ⟨fields, htext, hnodup, hfields, hkept⟩ := ih h
      have hadds := adds_of_add? hadd
      refine ⟨(key, split.1) :: fields, ?_, ?_, ?_, fun p hp => hkept p (hadds.keeps p hp)⟩
      · rw [fieldsText_cons, ← htext, List.cons_append, splitValue_append]
      · refine List.nodup_cons.mpr ⟨fun hmem => ?_, hnodup⟩
        obtain ⟨p, hp, hsame⟩ := List.mem_map.mp hmem
        have hopen := (hfields p hp).1
        rw [hsame, hadds.holds.has] at hopen
        cases hopen
      · refine List.forall_mem_cons.mpr ⟨⟨hadds.has_eq, hkept _ hadds.holds⟩, fun p hp => ?_⟩
        obtain ⟨hopen, hheld⟩ := hfields p hp
        refine ⟨Bool.eq_false_iff.mpr fun hset => ?_, hheld⟩
        rw [hadds.keeps_has _ hset] at hopen
        cases hopen
  | case4 => cases h

end Fields

theorem isCoordinate_of_decode? {α : Type} [Scalar α] {format : CoordinateFormat} {axis : Axis}
    {text : List Char} {value : α} (h : format.decode? axis text = some value) :
    IsCoordinate text := by
  unfold CoordinateFormat.decode? DigitCount.readFilled? at h
  dsimp only at h
  split at h
  · exact Decimal.isCoordinate_of_readPlain? h
  · obtain ⟨hdigits, -⟩ := Option.ite_none_left_eq_some.mp h
    obtain ⟨hne, hdigits⟩ := by simpa using hdigits
    exact Decimal.isCoordinate_of_splitSign (Decimal.isPointed_of_digits hne hdigits)

/-! ## What is accepted -/

variable {α : Type}

theorem exists_code_of_preparation {digits : List Char} {p : Preparation}
    (h : (Preparation.read? digits : Except (Defect α) Preparation) = .ok p) :
    ∃ n ∈ preparationCodes, Decimal.readWord32? digits = some n := by
  unfold Preparation.read? at h
  dsimp only at h
  split at h
  case h_1 | h_14 | h_15 => cases h
  all_goals next hread => exact ⟨_, by decide, hread⟩

/-- The digits of a preparation code have no sign. -/
theorem writes_of_preparation {digits : List Char} {p : Preparation}
    (hdigits : ∀ c ∈ digits, isDigit c = true)
    (h : (Preparation.read? digits : Except (Defect α) Preparation) = .ok p) :
    ∃ n ∈ preparationCodes, Writes digits n := by
  obtain ⟨n, hn, hread⟩ := exists_code_of_preparation h
  refine ⟨n, hn, ?_⟩
  cases Decimal.writesPlussed_of_readWord32? hread with
  | bare hwrites => exact hwrites
  | plus _ => exact absurd (hdigits '+' List.mem_cons_self) (by decide)

variable [Scalar α] {r next : Reading α} {line : Nat} {word : List Char}

theorem isCoordinate_of_point? {format : CoordinateFormat} {x y : Option (List Char)}
    {missing point : Point α} (h : format.point? x y missing = some point) :
    (∀ text ∈ x, IsCoordinate text) ∧ ∀ text ∈ y, IsCoordinate text := by
  obtain ⟨_, hx, h⟩ := Option.bind_eq_some_iff.mp h
  obtain ⟨_, hy, -⟩ := Option.bind_eq_some_iff.mp h
  constructor
  · rintro text rfl
    exact isCoordinate_of_decode? hx
  · rintro text rfl
    exact isCoordinate_of_decode? hy

/-- All fields of a word that is accepted are written as they should be. -/
theorem isField_of_fields {f : Fields} (h : r.fields line word f = .ok next) {p : Char × List Char}
    (hp : f.Holds p) : IsField WritesPlussed p := by
  have hcoordinates : ((∀ text ∈ f.x, IsCoordinate text) ∧ ∀ text ∈ f.y, IsCoordinate text) ∧
      (∀ text ∈ f.i, IsCoordinate text) ∧ ∀ text ∈ f.j, IsCoordinate text := by
    rcases Reading.fields_cases h with ⟨-, -, hnone, -⟩ | ⟨-, operation, -, hoperate⟩
    · simp_all [Fields.hasCoordinates]
    · obtain ⟨format, target, offset, -, htarget, hoffset, -⟩ := Reading.operate_eq_ok hoperate
      exact ⟨isCoordinate_of_point? htarget, isCoordinate_of_point? hoffset⟩
  obtain ⟨⟨hx, hy⟩, hi, hj⟩ := hcoordinates
  cases hp with
  | x h => exact .coordinate (by decide) (hx _ h)
  | y h => exact .coordinate (by decide) (hy _ h)
  | i h => exact .coordinate (by decide) (hi _ h)
  | j h => exact .coordinate (by decide) (hj _ h)
  | d h hread => exact .code (Decimal.writesPlussed_of_readWord32? hread)

theorem exists_fields_of_word {text : List Char} {f : Fields}
    (hread : Fields.none.read? text = some f) (h : r.fields line word f = .ok next) :
    ∃ fields, text = fieldsText fields ∧ AreFields WritesPlussed fields := by
  obtain ⟨fields, htext, hnodup, hfields, -⟩ := Fields.exists_of_read? hread
  exact ⟨fields, htext, hnodup, fun p hp => isField_of_fields h (hfields p hp).2⟩

theorem isWord_of_word (h : r.word line word = .ok next) : IsWord WritesPlussed word := by
  obtain ⟨w, hw, hcases⟩ := Reading.word_eq_ok h
  cases Word.consists_of_read? hw with
  | stop hread hn _ => exact .stop hn (Decimal.writesPlussed_of_readWord32? hread)
  | lone hdigits hread =>
      obtain ⟨n, hn, hwrites⟩ := writes_of_preparation (List.all_eq_true.mp hdigits) hread
      rw [← List.append_nil ('G' :: _)]
      have hnone : AreFields WritesPlussed [] := ⟨List.nodup_nil, nofun⟩
      exact .prepared hn hwrites hnone
  | @prepared text _ _ _ hread hfields =>
      rcases hcases with ⟨hsame, -⟩ | ⟨hsame, -⟩ | ⟨p, hsame, -⟩ | ⟨p, f, hsame, hnext⟩ <;>
        cases hsame
      obtain ⟨n, hn, hwrites⟩ := writes_of_preparation (fun c => List.mem_takeWhile_imp) hread
      obtain ⟨fields, htext, hgrammar⟩ := exists_fields_of_word hfields hnext
      rw [← List.takeWhile_append_dropWhile (p := isDigit) (l := text), htext]
      exact .prepared hn hwrites hgrammar
  | fields _ _ hfields =>
      rcases hcases with ⟨hsame, -⟩ | ⟨hsame, -⟩ | ⟨p, hsame, -⟩ | ⟨p, f, hsame, hnext⟩ <;>
        cases hsame
      obtain ⟨fields, rfl, hgrammar⟩ := exists_fields_of_word hfields hnext
      refine .fields ?_ hgrammar
      rintro rfl
      have hnone : Fields.none.read? (fieldsText []) = some .none := by simp [fieldsText, Fields.read?]
      cases hfields.symm.trans hnone
      cases hnext

/-- A word that is accepted, whatever was read before it, follows the grammar, its stop code or
operation code being written with a plus or without. It has no plus there exactly if all of its
signs stand directly behind the keys of coordinates. -/
theorem Reading.accepted_words_grammatical (h : r.word line word = .ok next) :
    IsWord WritesPlussed word ∧
      (IsWord Writes word ↔ SignsBehind ['X', 'Y', 'I', 'J'] word) := by
  have hword := isWord_of_word h
  exact ⟨hword, isWord_writes_iff.trans (and_iff_right hword)⟩

/-- A reading with a coordinate format, ready for operations. -/
def readyReading : Reading Float := { Reading.start with format := some ⟨.leading, ⟨2, 4⟩, ⟨2, 4⟩⟩ }

/-- A straight line to a point with signed coordinates. -/
theorem Reading.accepted_words_grammatical_line :
    let word := "G01X+1.5Y-20D01".toList
    ∃ next, readyReading.word 1 word = .ok next ∧ IsWord Writes word := by
  intro word
  have haccepted : (readyReading.word 1 word).isOk = true := by decide +kernel
  obtain ⟨next, hnext⟩ := isOk_iff.mp haccepted
  refine ⟨next, hnext, (Reading.accepted_words_grammatical hnext).2.mpr ?_⟩
  have hword : word = ['G', '0', '1', 'X', '+', '1', '.', '5', 'Y', '-', '2', '0', 'D', '0', '1'] := by
    decide
  simp [hword, SignsBehind, forall_split_cons, isSign]

/-- An operation code and a stop code with a plus are accepted. -/
theorem Reading.accepted_plus :
    (∃ next, readyReading.word 1 "X1Y1D+2".toList = .ok next ∧ ¬ IsWord Writes "X1Y1D+2".toList) ∧
      ∃ next, readyReading.word 1 "M+2".toList = .ok next ∧ ¬ IsWord Writes "M+2".toList := by
  have hrefused (before : List Char) {after : List Char} {key : Char}
      (hkey : key ∉ ['X', 'Y', 'I', 'J']) : ¬ IsWord Writes (before ++ key :: '+' :: after) :=
    fun h => h.signsBehind.false_of_split before hkey rfl
  constructor
  · have haccepted : (readyReading.word 1 "X1Y1D+2".toList).isOk = true := by decide +kernel
    obtain ⟨next, hnext⟩ := isOk_iff.mp haccepted
    exact ⟨next, hnext, hrefused ['X', '1', 'Y', '1'] (by decide)⟩
  · have haccepted : (readyReading.word 1 "M+2".toList).isOk = true := by decide +kernel
    obtain ⟨next, hnext⟩ := isOk_iff.mp haccepted
    exact ⟨next, hnext, hrefused [] (by decide)⟩

end BoardMill.Gerber
