import SymbolGraph.Proofs.Boundaries
import SymbolGraph.Recovery.Pattern

/-! Matches of text patterns. Every place that a search comes to is a boundary of the text and knows the line that it is
    on, and a match goes forward from its start to its end. What a pattern has tried before only takes matches away, so
    none of this depends on it. -/

namespace SymbolGraph.Recovery

open Text

variable {text : List Char}

/-! ### Places -/

namespace Cursor

/-- The characters since the last line break. -/
def lineHead (before : List Char) : List Char := (before.reverse.takeWhile (· != '\n')).reverse

/-- The number of bytes up to the last line break. -/
def lineStart (before : List Char) : Nat := byteLength (before.reverse.dropWhile (· != '\n'))

theorem lineHead_append (before : List Char) :
    (before.reverse.dropWhile (· != '\n')).reverse ++ lineHead before = before := by
  rw [lineHead, ← List.reverse_append, List.takeWhile_append_dropWhile, List.reverse_reverse]

/-- The place is one of the text, and its line is the one that it is on. -/
def Of (at_ : Cursor) (text : List Char) : Prop :=
  ∃ before, text = before ++ at_.rest ∧ at_.offset = byteLength before ∧
    at_.line = ⟨lineStart before, lineHead before ++ at_.rest⟩

/-- The second place is at or after the first one. -/
def Reaches (a b : Cursor) : Prop := ∃ mid, a.rest = mid ++ b.rest ∧ b.offset = a.offset + byteLength mid

variable {at_ a b c : Cursor} {ch : Char} {rest : List Char}

theorem of_start (text : List Char) : (start text).Of text := ⟨[], rfl, rfl, rfl⟩

theorem Of.advance (h : at_.Of text) (hrest : at_.rest = ch :: rest) : (at_.advance ch rest).Of text := by
  obtain ⟨before, htext, hoffset, hline⟩ := h
  refine ⟨before ++ [ch], by simp [htext, hrest, Cursor.advance], by simp [Cursor.advance, hoffset], ?_⟩
  rw [Cursor.advance, lineStart, lineHead, List.reverse_append, List.reverse_singleton, List.singleton_append]
  by_cases hbreak : ch = '\n'
  · simp [hbreak, hoffset, Nat.add_comm]
  · simp [hbreak, hline, hrest, lineStart, lineHead]

theorem Of.tail (h : at_.Of text) : (⟨at_.offset, at_.rest⟩ : Tail).Of text := by
  obtain ⟨before, htext, hoffset, -⟩ := h
  exact ⟨before, htext, hoffset⟩

/-- The line of a place is one of the text too. -/
theorem Of.line (h : at_.Of text) : at_.line.Of text := by
  obtain ⟨before, htext, -, hline⟩ := h
  refine ⟨(before.reverse.dropWhile (· != '\n')).reverse, ?_, ?_⟩
  · rw [hline, ← List.append_assoc, lineHead_append, htext]
  · rw [hline, byteLength_reverse, lineStart]

theorem Reaches.refl (a : Cursor) : a.Reaches a := ⟨[], rfl, rfl⟩

theorem Reaches.trans (h : a.Reaches b) (h' : b.Reaches c) : a.Reaches c := by
  obtain ⟨mid, hrest, hoffset⟩ := h
  obtain ⟨mid', hrest', hoffset'⟩ := h'
  exact ⟨mid ++ mid', by rw [hrest, hrest', List.append_assoc], by
    rw [hoffset', hoffset, byteLength_append, Nat.add_assoc]⟩

theorem reaches_advance (hrest : at_.rest = ch :: rest) : at_.Reaches (at_.advance ch rest) :=
  ⟨[ch], hrest, rfl⟩

end Cursor

namespace Match

/-- The match is one in the text: it ends at a place there, and so does its name, which goes forward. -/
def Of (m : Match) (text : List Char) : Prop :=
  m.cursor.Of text ∧ ∀ at_ stop, m.name? = some (at_, stop) →
    at_.Of text ∧ (⟨at_.offset, at_.rest⟩ : Tail).Ahead stop

/-- The second match goes on where the first one is. -/
def Leads (text : List Char) (m m' : Match) : Prop := m'.Of text ∧ m.cursor.Reaches m'.cursor

variable {m m' m'' : Match} {ch : Char} {rest : List Char}

theorem Leads.refl (h : m.Of text) : m.Leads text m := ⟨h, .refl _⟩

theorem Leads.trans (h : m.Leads text m') (h' : m'.Leads text m'') : m.Leads text m'' := ⟨h'.1, h.2.trans h'.2⟩

theorem Of.leads_cursor (h : m.Of text) {cursor : Cursor} (hof : cursor.Of text) (hreach : m.cursor.Reaches cursor) :
    m.Leads text { m with cursor } := ⟨⟨hof, h.2⟩, hreach⟩

theorem Of.leads_advance (h : m.Of text) (hrest : m.cursor.rest = ch :: rest) :
    m.Leads text { m with cursor := m.cursor.advance ch rest } :=
  h.leads_cursor (h.1.advance hrest) (Cursor.reaches_advance hrest)

end Match

/-! ### What a search remembers does not matter -/

namespace Pattern

/-- Whatever was tried before, all results are of the kind. -/
def Yields (P : Match → Prop) (x : StateM Tried (List Match)) : Prop := ∀ tried, ∀ m ∈ (x.run tried).1, P m

namespace Yields
variable {P Q : Match → Prop} {α : Type}

theorem pure {ms : List Match} (h : ∀ m ∈ ms, P m) : Yields P (Pure.pure ms) := fun _ => h

theorem mono {x : StateM Tried (List Match)} (hx : Yields Q x) (h : ∀ m, Q m → P m) : Yields P x :=
  fun tried m hm => h m (hx tried m hm)

theorem bind {x : StateM Tried (List Match)} {f : List Match → StateM Tried (List Match)} (hx : Yields Q x)
    (hf : ∀ ms, (∀ m ∈ ms, Q m) → Yields P (f ms)) : Yields P (x >>= f) :=
  fun tried => hf _ (hx tried) _

theorem after {x : StateM Tried α} {f : α → StateM Tried (List Match)} (hf : ∀ a, Yields P (f a)) :
    Yields P (x >>= f) := fun _ => hf _ _

theorem append {x y : StateM Tried (List Match)} (hx : Yields P x) (hy : Yields P y) :
    Yields P (do let first ← x; let others ← y; return first ++ others) :=
  hx.bind fun first hfirst => hy.bind fun others hothers => .pure fun m hm => by
    rcases List.mem_append.mp hm with hm | hm
    · exact hfirst m hm
    · exact hothers m hm

theorem overNew {part : Nat} {ends : Match → StateM Tried (List Match)} {ms : List Match}
    (h : ∀ m ∈ ms, Yields P (ends m)) : Yields P (overNew part ends ms) := by
  induction ms with
  | nil => exact .pure nofun
  | cons m ms ih =>
    have hrest := ih fun m' hm' => h m' (List.mem_cons_of_mem _ hm')
    refine .after fun isNew => ?_
    cases isNew with
    | false => exact hrest
    | true => exact .append (h m List.mem_cons_self) hrest

end Yields

/-! ### Along a pattern -/

/-- The parts that the pattern marks as names are of the kind. -/
def Marks (kind : Pattern → Prop) : Pattern → Prop
  | andThen first second => first.Marks kind ∧ second.Marks kind
  | orElse first second => first.Marks kind ∧ second.Marks kind
  | many body => body.Marks kind
  | name body => kind body ∧ body.Marks kind
  | _ => True

theorem marks_true (p : Pattern) : p.Marks fun _ => True := by
  induction p <;> simp_all [Marks]

/-- What holds between a match and itself, from a match to the one a character further, and across a name of the kind
    if it holds across its body. -/
structure Along (S : Match → Match → Prop) (kind : Pattern → Prop) : Prop where
  refl : ∀ m, S m m
  trans : ∀ {m m' m''}, S m m' → S m' m'' → S m m''
  advance : ∀ {m : Match} {ch rest}, m.cursor.rest = ch :: rest → S m { m with cursor := m.cursor.advance ch rest }
  name : ∀ {body part m}, kind body → Yields (S m) (body.ends (2 * part) m) → Yields (S m) ((name body).ends part m)

section
variable {S : Match → Match → Prop} {kind : Pattern → Prop} {start m : Match}

theorem Along.singleton (h : Along S kind) (m : Match) : ∀ e ∈ [m], S m e :=
  fun _ he => List.mem_singleton.mp he ▸ h.refl m

theorem runEnds_yields (h : Along S kind) {part : Nat} {isIn : Char → Bool} {cs : List Char} {shorter : List Match}
    (hm : S start m) (hrest : m.cursor.rest = cs) (hshorter : ∀ m' ∈ shorter, S start m') :
    Yields (S start) (runEnds part isIn cs m shorter) := by
  have hlonger : ∀ m' ∈ m :: shorter, S start m' := fun m' hm' => by
    rcases List.mem_cons.mp hm' with rfl | hm'
    · exact hm
    · exact hshorter m' hm'
  -- The longer ends come first, so the list grows by the place that was just passed.
  induction cs generalizing m shorter with
  | nil =>
    refine .after fun isNew => ?_
    cases isNew with
    | false => exact .pure hshorter
    | true => exact .pure hlonger
  | cons c cs ih =>
    refine .after fun isNew => ?_
    cases isNew with
    | false => exact .pure hshorter
    | true =>
      have hnext := h.trans hm (h.advance hrest)
      by_cases hin : isIn c = true
      · simp only [if_true, hin]
        refine ih hnext rfl hlonger fun m' hm' => ?_
        rcases List.mem_cons.mp hm' with rfl | hm'
        · exact hnext
        · exact hlonger m' hm'
      · simp only [if_true, hin]
        exact .pure hlonger

theorem literalEnd?_along (h : Along S kind) {literal : List Char} {stop : Cursor}
    (hstop : literalEnd? literal m.cursor = some stop) : S m { m with cursor := stop } := by
  induction literal generalizing m with
  | nil =>
    obtain rfl := Option.some.inj hstop
    exact h.refl m
  | cons c cs ih =>
    rw [literalEnd?] at hstop
    split at hstop
    · cases hstop
    · next r rest hrest =>
      split at hstop
      · exact h.trans (h.advance hrest) (ih (m := { m with cursor := m.cursor.advance r rest }) hstop)
      · cases hstop

theorem rounds_yields (h : Along S kind) {part : Nat} {round : Match → StateM Tried (List Match)} {left : List Char}
    (hround : ∀ m, Yields (S m) (round m)) (hm : S start m) : Yields (S start) (rounds part round left m) := by
  have hstay : ∀ m' ∈ [m], S start m' := fun m' hm' => h.trans hm (h.singleton m m' hm')
  induction left generalizing m with
  | nil => exact .pure hstay
  | cons c left ih =>
    refine (hround m).bind fun once honce => ?_
    refine Yields.bind (Q := S start) (.overNew fun m' hm' => ?_) fun more hmore => .pure fun m' hm' => ?_
    · have hnext := h.trans hm (honce m' hm')
      exact ih hnext fun m'' hm'' => h.trans hnext (h.singleton m' m'' hm'')
    · rcases List.mem_append.mp hm' with hm' | hm'
      · exact hmore m' hm'
      · exact hstay m' hm'

/-- It holds from the start of a pattern to wherever the pattern may end. -/
theorem ends_yields (h : Along S kind) (p : Pattern) (hp : p.Marks kind) (part : Nat) (m : Match) :
    Yields (S m) (p.ends part m) := by
  induction p generalizing part m with
  | nothing => exact .pure (h.singleton m)
  | lineStart | wordEdge =>
    refine .pure fun e he => ?_
    split at he
    · exact h.singleton m e he
    · cases he
  | one isIn =>
    rw [ends]
    split
    · exact .pure nofun
    · next c rest hrest =>
      refine .pure fun e he => ?_
      split at he
      · exact List.mem_singleton.mp he ▸ h.advance hrest
      · cases he
  | run isIn => exact runEnds_yields h (h.refl m) rfl nofun
  | literal cs =>
    refine .pure fun e he => ?_
    obtain ⟨stop, hstop, rfl⟩ := Option.map_eq_some_iff.mp (Option.mem_toList.mp he)
    exact literalEnd?_along h hstop
  | andThen first second hfirst hsecond =>
    refine (hfirst hp.1 (2 * part) m).bind fun middle hmiddle => .overNew fun e he => ?_
    exact (hsecond hp.2 (2 * part + 1) e).mono fun e' he' => h.trans (hmiddle e he) he'
  | orElse first second hfirst hsecond => exact .append (hfirst hp.1 _ m) (hsecond hp.2 _ m)
  | many body hbody =>
    refine .after fun isNew => ?_
    cases isNew with
    | false => exact .pure nofun
    | true => exact rounds_yields h (hbody hp _) (h.refl m)
  | name body hbody => exact h.name hp.1 (hbody hp.2 _ m)

end

/-! ### The ends of a pattern -/

/-- Matches stay in the text and go forward in it. -/
theorem along_leads (text : List Char) : Along (fun m m' => m.Of text → m.Leads text m') fun _ => True where
  refl _ hm := .refl hm
  trans h h' hm := (h hm).trans (h' (h hm).1)
  advance hrest hm := hm.leads_advance hrest
  name {body part m} _ hbody := hbody.bind fun found hfound => .pure fun e' he' hm => by
    obtain ⟨e, he, rfl⟩ := List.mem_map.mp he'
    obtain ⟨hof, name, hrest, hoffset⟩ := hfound e he hm
    -- The name is what the body has gone over, whatever name the body marks itself.
    refine ⟨⟨hof.1, fun at_ stop hname => ?_⟩, name, hrest, hoffset⟩
    obtain ⟨rfl, rfl⟩ := Prod.mk.inj (Option.some.inj hname)
    exact ⟨hm.1, name, e.cursor.rest, hrest, hoffset⟩

theorem matchAt?_of (p : Pattern) {at_ : Cursor} (h : at_.Of text) (tried : Tried) {m : Match}
    (hm : ((p.matchAt? at_).run tried).1 = some m) : m.Of text :=
  (ends_yields (along_leads text) p p.marks_true 1 ⟨at_, none⟩ tried m (List.mem_of_mem_head? hm) ⟨h, nofun⟩).1

/-- What a search finds is the preferred match at some place of the text. -/
theorem mem_search (p : Pattern) {left : List Char} {tried : Tried} {at_ : Cursor} (h : at_.Of text) :
    ∀ m ∈ p.search left tried at_, ∃ from_ tried', from_.Of text ∧ ((p.matchAt? from_).run tried').1 = some m := by
  induction left generalizing tried at_ with
  | nil => exact fun m hm => ⟨at_, tried, h, Option.mem_toList.mp hm⟩
  | cons c left ih =>
    have hnext : ∀ next, at_.next? = some next → next.Of text := fun next hnext => by
      unfold Cursor.next? at hnext
      split at hnext
      · cases hnext
      · next c' rest hrest => exact Option.some.inj hnext ▸ h.advance hrest
    intro m hm
    rw [search] at hm
    split at hm
    · next found later hfound =>
      have hfirst : ((p.matchAt? at_).run tried).1 = some found := congrArg Prod.fst hfound
      rcases List.mem_cons.mp hm with rfl | hm
      · exact ⟨at_, tried, h, hfirst⟩
      · -- The search goes on behind the match, or a character further if the match is empty.
        refine ih ?_ m hm
        split
        · exact (p.matchAt?_of h tried hfirst).1
        · cases hstep : at_.next? with
          | none => exact h
          | some next => exact hnext next hstep
    · split at hm
      · next next hstep => exact ih (hnext next hstep) m hm
      · cases hm

/-- All matches in a text are at places of it. -/
theorem searchAll_of (p : Pattern) (text : List Char) : ∀ m ∈ p.searchAll text, m.Of text := fun m hm => by
  obtain ⟨from_, tried, hfrom, hfound⟩ := p.mem_search (Cursor.of_start text) m hm
  exact p.matchAt?_of hfrom tried hfound

end Pattern
end SymbolGraph.Recovery
