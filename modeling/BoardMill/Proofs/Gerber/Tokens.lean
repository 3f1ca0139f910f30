import BoardMill.Gerber.Reading
import BoardMill.Proofs.Gerber.Commands
import BoardMill.Proofs.Gerber.Steps
import Mathlib.Data.List.TakeWhile

/-! # What tokens say

A token names an operation, a curve or a coordinate format, whatever stands before it. What
it leaves out is what the last token before it said that says anything of the kind.
-/

namespace BoardMill

/-- The point that two texts give. What is missing is taken from another point. -/
def CoordinateFormat.point? {α : Type} [Scalar α] (format : CoordinateFormat)
    (x y : Option (List Char)) (missing : Point α) : Option (Point α) := do
  let x ← x.elim (some missing.x) (format.decode? .x)
  let y ← y.elim (some missing.y) (format.decode? .y)
  return ⟨x, y⟩

end BoardMill

namespace BoardMill.Gerber

open Outcome

namespace Fields

def operation? (f : Fields) : Option Operation :=
  match f.d with
  | some 1 => some .interpolate
  | some 2 => some .move
  | some 3 => some .flash
  | _ => .none

/-- Operation codes from ten on are the numbers of apertures. -/
def selects (f : Fields) : Bool := f.d.any (10 ≤ ·)

end Fields

def Preparation.mode? : Preparation → Option Interpolation
  | mode m => some m
  | _ => none

def Extended.format? {α : Type} : Extended α → Option CoordinateFormat
  | block (.format format) => some format
  | _ => none

namespace Token

variable (α : Type)

/-- The parts of a word that can be read. -/
def word? (t : Token) : Option Word :=
  if t.kind = .word then (Word.read? t.text : Except (Defect α) Word).toOption else none

/-- Whether a token is the end marker. -/
def ends (t : Token) : Bool := t.word? α == some .finish

def fields? (t : Token) : Option Fields :=
  match t.word? α with
  | some (.drawing _ fields) => fields
  | _ => none

/-- Whether a token is a word that operates: it is no stop code, no preparation code on its
own, and no selection of an aperture. -/
def operates (t : Token) : Bool :=
  t.kind == .word && t.text.head? != some 'M' &&
    !(t.text.head? == some 'G' && t.text.tail.all Decimal.isDigit) &&
    !(t.fields? α).any Fields.selects

def operation? (t : Token) : Option Operation := (t.fields? α).bind Fields.operation?

/-- The curve that the preparation code of a word sets. -/
def mode? (t : Token) : Option Interpolation :=
  match t.word? α with
  | some (.drawing preparation _) => preparation.bind Preparation.mode?
  | _ => none

/-- The coordinate format that an extended command sets. -/
def format? [Scalar α] (t : Token) : Option CoordinateFormat :=
  if t.kind = .extended then
    (Extended.read? t.text : Except (Defect α) (Extended α)).toOption.bind Extended.format?
  else none

/-- The tokens that are read: those up to the end marker. -/
def run : List Token → List Token
  | [] => []
  | t :: rest => if t.ends α then [t] else t :: run rest

end Token

/-- What the last one of some tokens that tells anything tells. -/
def latest? {β : Type} (tell : Token → Option β) (tokens : List Token) : Option β :=
  tokens.reverse.findSome? tell

theorem latest?_append {β : Type} (tell : Token → Option β) (tokens : List Token) (t : Token) :
    latest? tell (tokens ++ [t]) = (tell t).or (latest? tell tokens) := by
  simp only [latest?, List.reverse_append, List.reverse_cons, List.reverse_nil, List.nil_append,
    List.singleton_append, List.findSome?_cons]
  cases tell t <;> rfl

/-! ## Words -/

variable {α : Type}

theorem Word.fields?_eq_ok_iff {word text : List Char} {f : Fields} :
    (fields? word text : Except (Defect α) Fields) = .ok f ↔ Fields.none.read? text = some f := by
  unfold fields?
  cases Fields.none.read? text <;> simp [pure, Except.pure, throw, throwThe, MonadExceptOf.throw]

/-- What a word consists of that can be read. -/
inductive Word.Consists (α : Type) : List Char → Word → Prop
  | stop {text : List Char} {n : Nat} {w : Word} (hread : Decimal.readWord32? text = some n)
    (hn : n ≤ 2) (hw : w = .finish ∨ w = .pause) : Consists α ('M' :: text) w
  | lone {text : List Char} {p : Preparation} (hdigits : text.all Decimal.isDigit = true)
    (hread : (Preparation.read? text : Except (Defect α) Preparation) = .ok p) :
    Consists α ('G' :: text) (.drawing (some p) none)
  | prepared {text : List Char} {p : Preparation} {f : Fields}
    (hdigits : ¬ text.all Decimal.isDigit = true)
    (hread : (Preparation.read? (text.takeWhile Decimal.isDigit) :
      Except (Defect α) Preparation) = .ok p)
    (hfields : Fields.none.read? (text.dropWhile Decimal.isDigit) = some f) :
    Consists α ('G' :: text) (.drawing (some p) (some f))
  | fields {text : List Char} {f : Fields} (hM : text.head? ≠ some 'M') (hG : text.head? ≠ some 'G')
    (hfields : Fields.none.read? text = some f) : Consists α text (.drawing none (some f))

theorem Word.consists_of_read? {text : List Char} {w : Word}
    (h : (Word.read? text : Except (Defect α) Word) = .ok w) : Consists α text w := by
  unfold Word.read? at h
  dsimp only at h
  by_cases hascii : (text.any fun c => 0x80 ≤ c.toNat) = true
  · rw [if_pos hascii] at h
    split at h <;> cases h
  rw [if_neg hascii] at h
  split at h
  next rest =>
    split at h
    next hread =>
      cases h
      exact .stop hread (by decide) (.inl rfl)
    next hread =>
      cases h
      exact .stop hread (by decide) (.inl rfl)
    next hread =>
      cases h
      exact .stop hread (by decide) (.inr rfl)
    next => cases h
  next rest =>
    obtain ⟨p, hread, h⟩ := bind_eq_ok.mp h
    split at h
    next hempty =>
      cases h
      have hdigits : rest.all Decimal.isDigit = true := by
        simpa [List.dropWhile_eq_nil_iff] using hempty
      rw [List.takeWhile_eq_self_iff.mpr (List.all_eq_true.mp hdigits)] at hread
      exact .lone hdigits hread
    next hempty =>
      obtain ⟨f, hfields, h⟩ := bind_eq_ok.mp h
      cases h
      refine .prepared ?_ hread (fields?_eq_ok_iff.mp hfields)
      simpa [List.dropWhile_eq_nil_iff] using hempty
  next hM hG =>
    obtain ⟨f, hfields, h⟩ := bind_eq_ok.mp h
    cases h
    refine .fields (fun hhead => ?_) (fun hhead => ?_) (fields?_eq_ok_iff.mp hfields)
    · obtain ⟨rest, rfl⟩ := List.head?_eq_some_iff.mp hhead
      exact hM rest rfl
    · obtain ⟨rest, rfl⟩ := List.head?_eq_some_iff.mp hhead
      exact hG rest rfl

/-- The three kinds of words, by their texts. -/
theorem Word.read?_cases {text : List Char} {w : Word}
    (h : (Word.read? text : Except (Defect α) Word) = .ok w) :
    (text.head? = some 'M' ∧ (w = .finish ∨ w = .pause)) ∨
    (text.head? = some 'G' ∧ text.tail.all Decimal.isDigit = true ∧
      ∃ p, w = .drawing (some p) none) ∨
    (text.head? ≠ some 'M' ∧ ¬ (text.head? = some 'G' ∧ text.tail.all Decimal.isDigit = true) ∧
      ∃ p f, w = .drawing p (some f)) := by
  cases consists_of_read? h with
  | stop _ _ hw => exact .inl ⟨rfl, hw⟩
  | lone hdigits _ => exact .inr (.inl ⟨rfl, hdigits, _, rfl⟩)
  | prepared hdigits _ _ => exact .inr (.inr ⟨by simp, fun h => hdigits h.2, _, _, rfl⟩)
  | fields hM hG _ => exact .inr (.inr ⟨hM, fun h => hG h.1, _, _, rfl⟩)

namespace Token

variable {t : Token} {w : Word}

theorem word?_eq_some_iff :
    t.word? α = some w ↔ t.kind = .word ∧ (Word.read? t.text : Except (Defect α) Word) = .ok w := by
  unfold word?
  split
  next hkind =>
    rw [and_iff_right hkind]
    cases (Word.read? t.text : Except (Defect α) Word) <;> simp [Except.toOption]
  next hkind => simp [hkind]

/-- A word that can be read operates if it has fields that do not select an aperture. -/
theorem operates_eq_any (h : t.word? α = some w) :
    t.operates α = (t.fields? α).any fun f => !f.selects := by
  obtain ⟨hkind, hread⟩ := word?_eq_some_iff.mp h
  rw [operates, fields?, hkind, h]
  rcases Word.read?_cases hread with ⟨hM, rfl | rfl⟩ | ⟨hG, hdigits, p, rfl⟩ | ⟨hM, hG, p, f, rfl⟩
  · simp [hM]
  · simp [hM]
  · simp [hG, hdigits]
  · have hlone : (t.text.head? == some 'G' && t.text.tail.all Decimal.isDigit) = false := by
      rw [Bool.eq_false_iff]
      simpa using hG
    simp [hM, hlone]

theorem word?_of_extended (h : t.kind = .extended) : t.word? α = none := by
  simp [word?, h]

end Token

/-- The blocks of extended commands go nowhere. -/
theorem Extended.target?_of_read? [Scalar α] {command : List Char} {b : Block α}
    (h : Extended.read? command = .ok (.block b)) : b.target? = none := by
  rcases read?_cases h with ⟨b, hsame, hsets⟩ | ⟨rest, a, -, -, hsame⟩ | hsame
  · cases hsame
    cases hsets <;> rfl
  · cases hsame
  · cases hsame

end BoardMill.Gerber
