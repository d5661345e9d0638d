import Mathlib.Data.List.Basic

/-!
Splitting a text into words and symbols. Blanks separate and are dropped; two
texts that do not meet inside a word can be split apart.
-/

namespace CloudabiCpp.Lib.Lexer

abbrev Word := List Char

scoped instance : LawfulBEq Word := inferInstance

inductive Token where
  | word (w : Word)
  | symbol (c : Char)
  deriving DecidableEq

def isWordChar (c : Char) : Bool := c.isAlphanum || c = '_'

def startsWord : List Char → Bool
  | [] => false
  | c :: _ => isWordChar c

def endsWord (text : List Char) : Bool :=
  text.getLast?.any isWordChar

/-- One more character in front of the first word. -/
def extendWord (c : Char) : List Token → List Token
  | .word w :: ts => .word (c :: w) :: ts
  | ts => .word [c] :: ts

def lex : List Char → List Token
  | [] => []
  | c :: cs =>
      if isWordChar c then
        if startsWord cs then extendWord c (lex cs) else .word [c] :: lex cs
      else if c = ' ' then lex cs
      else .symbol c :: lex cs

theorem lex_symbol {c : Char} (hword : isWordChar c = false) (hspace : c ≠ ' ')
    (cs : List Char) : lex (c :: cs) = .symbol c :: lex cs := by
  simp [lex, hword, hspace]

theorem lex_inside {c : Char} (hword : isWordChar c = true) {cs : List Char}
    (hstarts : startsWord cs = true) : lex (c :: cs) = extendWord c (lex cs) := by
  rw [lex, if_pos hword, if_pos hstarts]

theorem lex_last {c : Char} (hword : isWordChar c = true) {cs : List Char}
    (hstarts : startsWord cs = false) : lex (c :: cs) = .word [c] :: lex cs := by
  rw [lex, if_pos hword, hstarts]
  rfl

theorem exists_word_of_startsWord {cs : List Char} (hstarts : startsWord cs = true) :
    ∃ w ts, lex cs = .word w :: ts := by
  cases cs with
  | nil => cases hstarts
  | cons c cs =>
      have hword : isWordChar c = true := hstarts
      cases hcs : startsWord cs with
      | false => exact ⟨_, _, lex_last hword hcs⟩
      | true =>
          rw [lex_inside hword hcs]
          unfold extendWord
          split <;> exact ⟨_, _, rfl⟩

theorem lex_append {text more : List Char}
    (hboundary : endsWord text = false ∨ startsWord more = false) :
    lex (text ++ more) = lex text ++ lex more := by
  induction text with
  | nil => rfl
  | cons c cs ih =>
      cases hword : isWordChar c with
      | false =>
          have hrest : lex (cs ++ more) = lex cs ++ lex more := by
            cases cs with
            | nil => rfl
            | cons d ds => exact ih (by simpa [endsWord] using hboundary)
          rcases eq_or_ne c ' ' with rfl | hspace
          · exact hrest
          · rw [List.cons_append, lex_symbol hword hspace, lex_symbol hword hspace, hrest]
            rfl
      | true =>
          cases cs with
          | nil =>
              have hmore : startsWord more = false := by
                simpa [endsWord, hword] using hboundary
              have hone : lex [c] = [.word [c]] := lex_last hword rfl
              rw [List.singleton_append, lex_last hword hmore, hone]
              rfl
          | cons d ds =>
              have hrest := ih (by simpa [endsWord] using hboundary)
              cases hd : startsWord (d :: ds) with
              | false =>
                  have hd' : startsWord (d :: ds ++ more) = false := hd
                  rw [List.cons_append, lex_last hword hd, lex_last hword hd', hrest]
                  rfl
              | true =>
                  obtain ⟨w, ts, hlex⟩ := exists_word_of_startsWord hd
                  have hd' : startsWord (d :: ds ++ more) = true := hd
                  rw [List.cons_append, lex_inside hword hd, lex_inside hword hd', hrest, hlex]
                  rfl

theorem lex_word {w : Word} (hne : w ≠ []) (hw : w.all isWordChar = true) :
    lex w = [.word w] := by
  induction w with
  | nil => exact absurd rfl hne
  | cons c cs ih =>
      obtain ⟨hc, hcs⟩ := Bool.and_eq_true_iff.mp (List.all_cons.symm.trans hw)
      cases cs with
      | nil => exact lex_last hc rfl
      | cons d ds =>
          have hd : startsWord (d :: ds) = true := (Bool.and_eq_true_iff.mp hcs).1
          rw [lex_inside hc hd, ih (List.cons_ne_nil d ds) hcs]
          rfl

end CloudabiCpp.Lib.Lexer
