import SymbolGraph.Proofs.Matching
import SymbolGraph.Recovery.Rules

/-! Names that rules declare. Each rule marks as the name a part of its pattern that begins with a letter, an underscore
    or a dollar sign, so the line of a name has a character that is no blank. -/

namespace SymbolGraph.Recovery

open Text

/-- The character can begin a declared name. -/
def isHead (c : Char) : Bool := c.isAlpha || c == '_' || c == '$'

theorem ne_of_isHead {c d : Char} (h : isHead c = true) (hd : isHead d = false) : c ≠ d := by
  rintro rfl
  rw [h] at hd
  cases hd

namespace Match

/-- The name of the match, if it has one, begins like a declared name. -/
def Headed (m : Match) : Prop :=
  ∀ at_ stop, m.name? = some (at_, stop) → ∃ c rest, at_.rest = c :: rest ∧ isHead c = true

end Match

namespace Pattern

/-- A character that can begin a declared name, and then the rest of the name. -/
def HeadFirst (body : Pattern) : Prop := ∃ isIn rest, body = andThen (one isIn) rest ∧ ∀ c, isIn c = true → isHead c = true

variable {m : Match} {text : List Char}

/-- Where a name may end it has begun with a head. -/
theorem headFirst_yields {body : Pattern} (h : HeadFirst body) (part : Nat) (m : Match) :
    Yields (fun _ => ∃ c rest, m.cursor.rest = c :: rest ∧ isHead c = true) (body.ends part m) := by
  obtain ⟨isIn, rest, rfl, hhead⟩ := h
  have hone : Yields (fun _ => ∃ c rest, m.cursor.rest = c :: rest ∧ isHead c = true)
      ((one isIn).ends (2 * part) m) := by
    rw [ends]
    split
    · exact .pure fun e he => absurd he List.not_mem_nil
    · next c after hrest =>
      refine .pure fun e he => ?_
      split at he
      · next hin => exact ⟨c, after, hrest, hhead c hin⟩
      · cases he
  exact hone.bind fun middle hmiddle => .overNew fun e he _ _ _ => hmiddle e he

/-- A pattern leaves a name alone or marks one that begins with a head. -/
theorem along_headed : Along (fun m m' => m'.name? = m.name? ∨ m'.Headed) HeadFirst where
  refl _ := .inl rfl
  trans h h' := by
    rcases h' with hsame | hheaded
    · rcases h with hsame' | hheaded
      · exact .inl (hsame.trans hsame')
      · exact .inr fun at_ stop hname => hheaded at_ stop (hsame ▸ hname)
    · exact .inr hheaded
  advance _ := .inl rfl
  name {body part m} hbody _ := (headFirst_yields hbody (2 * part) m).bind fun found hfound => .pure fun e' he' => by
    obtain ⟨e, he, rfl⟩ := List.mem_map.mp he'
    refine .inr fun at_ stop hname => ?_
    obtain ⟨rfl, rfl⟩ := Prod.mk.inj (Option.some.inj hname)
    exact hfound e he

/-- If all marked parts begin with a head, so do the names of all matches. -/
theorem searchAll_headed {p : Pattern} (hp : p.Marks HeadFirst) (text : List Char) :
    ∀ m ∈ p.searchAll text, m.Headed := fun m hm => by
  obtain ⟨from_, tried, -, hfound⟩ := p.mem_search (Cursor.of_start text) m hm
  rcases ends_yields along_headed p hp 1 ⟨from_, none⟩ tried m (List.mem_of_mem_head? hfound) with hnone | hheaded
  · intro at_ stop hname
    rw [hnone] at hname
    cases hname
  · exact hheaded

/-! ### The patterns of the rules -/

theorem marks_plainName : plainName.Marks HeadFirst := by
  refine ⟨⟨_, _, rfl, fun c hc => ?_⟩, trivial, trivial⟩
  simp_all [isHead]

theorem marks_dollarName : dollarName.Marks HeadFirst :=
  ⟨⟨_, _, rfl, fun _ hc => hc⟩, trivial, trivial⟩

end Pattern

open Pattern

theorem rulesOf_marks (language : Language) : ∀ rule ∈ rulesOf language, rule.pattern.Marks HeadFirst := by
  cases language <;>
  simp [rulesOf, ecmaRules, pythonRules, goRules, javaRules, csharpRules, kotlinRules, inOrder, anyOf, maybe, lead, lead0,
    leads, wordOf, blanks, blanks0, margin, margin0, run1, Pattern.text, parameters, openBrace, Marks, marks_plainName,
    marks_dollarName]

end SymbolGraph.Recovery
