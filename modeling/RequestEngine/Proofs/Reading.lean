import Mathlib.Data.List.Basic
import RequestEngine.Json.Reader.Text

/-! What a reader takes off the front of a text, put together from what its parts take. Marks, words
and runs of digits are taken as they stand, blanks before them are passed over. -/
namespace RequestEngine.Json

namespace Reader

universe u

variable {α β : Type} {r : Reader α} {f : α → Reader β} {s s' s'' : List Char} {a : α} {b : β}
  {c : Char} {cs blanks : List Char}

/-- The reader succeeds with a value and leaves the rest of the text. -/
def Takes (r : Reader α) (s : List Char) (a : α) (s' : List Char) : Prop := r s = (.ok a, s')

theorem takes_pure (a : α) (s : List Char) : Takes (pure a : Reader α) s a s := rfl

theorem Takes.bind (h : Takes r s a s') (h' : Takes (f a) s' b s'') : Takes (r >>= f) s b s'' := by
  have hbind : (r >>= f) s = ExceptT.bindCont f (r s).1 (r s).2 := rfl
  rw [Takes, hbind, h]
  exact h'

/-- What a sequence took, its parts took one after the other. -/
theorem Takes.exists_of_bind (h : Takes (r >>= f) s b s'') :
    ∃ a s', Takes r s a s' ∧ Takes (f a) s' b s'' := by
  change ExceptT.bindCont f (r s).1 (r s).2 = _ at h
  rcases hr : r s with ⟨e | a, s'⟩
  · rw [hr] at h
    cases h
  · rw [hr] at h
    exact ⟨a, s', hr, h⟩

theorem takes_get (s : List Char) : Takes get s s s := rfl

theorem takes_modify (g : List Char → List Char) (s : List Char) : Takes (modify g) s () (g s) :=
  rfl

theorem takes_peek? (s : List Char) : Takes peek? s s.head? s := rfl

theorem takes_advance (c : Char) (s : List Char) : Takes advance (c :: s) () s := rfl

/-- Blanks, which may stand between tokens. -/
def Blank (cs : List Char) : Prop := ∀ c ∈ cs, isBlank c

theorem blank_nil : Blank [] := fun _ hc => absurd hc List.not_mem_nil

theorem dropWhile_blank (hb : Blank blanks) (hs : ∀ c ∈ s.head?, isBlank c = false) :
    (blanks ++ s).dropWhile isBlank = s := by
  rw [List.dropWhile_append_of_pos hb]
  cases s with
  | nil => rfl
  | cons c s => rw [List.dropWhile_cons_of_neg (by simpa using hs c rfl)]

theorem takes_peekToken? (hb : Blank blanks) (hc : isBlank c = false) (s : List Char) :
    Takes peekToken? (blanks ++ c :: s) (some c) (c :: s) := by
  have hskip := takes_modify (·.dropWhile isBlank) (blanks ++ c :: s)
  rw [dropWhile_blank hb (by simpa using hc)] at hskip
  exact hskip.bind (takes_peek? _)

theorem takes_peekToken?_cons (hc : isBlank c = false) (s : List Char) :
    Takes peekToken? (c :: s) (some c) (c :: s) := takes_peekToken? blank_nil hc s

theorem takes_peekToken?_nil (hb : Blank blanks) : Takes peekToken? blanks none [] := by
  have hskip := takes_modify (·.dropWhile isBlank) (blanks ++ [])
  rw [dropWhile_blank hb (by simp), List.append_nil] at hskip
  exact hskip.bind (takes_peek? _)

theorem takes_literal : ∀ (cs s : List Char), Takes (literal cs) (cs ++ s) () s
  | [], s => takes_pure () s
  | c :: cs, s => by
    refine (takes_peek? _).bind ?_
    simp only [List.cons_append, List.head?_cons, if_true]
    exact (takes_advance _ _).bind (takes_literal cs s)

theorem takes_takeDigits (hd : ∀ c ∈ cs, c.isDigit) (hs : ∀ c ∈ s.head?, c.isDigit = false) :
    Takes takeDigits (cs ++ s) cs s := by
  have hstop : s.takeWhile Char.isDigit = [] ∧ s.dropWhile Char.isDigit = s := by
    cases s with
    | nil => exact ⟨rfl, rfl⟩
    | cons c s =>
      have hc : ¬ c.isDigit = true := by simpa using hs c rfl
      exact ⟨List.takeWhile_cons_of_neg hc, List.dropWhile_cons_of_neg hc⟩
  refine (takes_get _).bind ((takes_modify _ _).bind ?_)
  rw [List.takeWhile_append_of_pos hd, List.dropWhile_append_of_pos hd, hstop.1, hstop.2,
    List.append_nil]
  exact takes_pure _ _

end Reader

end RequestEngine.Json
