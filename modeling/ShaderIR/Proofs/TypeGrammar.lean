import ShaderIR.Ty.Expression

/-! The grammar of type expressions. A phrase is a type expression as it is written, with the blanks
it is written with: a name, or a name with a list of arguments in angle brackets. The text of a
phrase has no other reading. -/

namespace ShaderIR.Ty.Grammar

open Text

/-- Any number of blanks. -/
structure Blanks where
  chars : List Char
  blank : ∀ c ∈ chars, isBlank c = true

/-- A name is never empty, and the marks and blanks of the grammar do not occur in it. -/
structure Name where
  chars : List Char
  nonempty : chars ≠ []
  plain : ∀ c ∈ chars, c ≠ '<' ∧ c ≠ '>' ∧ c ≠ ',' ∧ isBlank c = false

mutual

inductive Expression where
  | bare (name : Name)
  | applied (name : Name) (gap : Blanks) (arguments : Arguments)

/-- One or more expressions, each between blanks. -/
inductive Arguments where
  | last (before : Blanks) (e : Expression) (after : Blanks)
  | more (before : Blanks) (e : Expression) (after : Blanks) (rest : Arguments)

end

structure Phrase where
  before : Blanks
  expression : Expression
  after : Blanks

mutual

def Expression.text : Expression → List Char
  | .bare name => name.chars
  | .applied name gap arguments => name.chars ++ (gap.chars ++ '<' :: (arguments.text ++ ['>']))

/-- The text between the brackets. -/
def Arguments.text : Arguments → List Char
  | .last before e after => before.chars ++ (e.text ++ after.chars)
  | .more before e after rest => before.chars ++ (e.text ++ (after.chars ++ ',' :: rest.text))

end

def Phrase.text (x : Phrase) : List Char :=
  x.before.chars ++ (x.expression.text ++ x.after.chars)

/-- A bare name denotes the first parameter of that name, or else the type of that name. -/
def Name.meaning (name : Name) : List GenericParam → Ty
  | [] => .named (String.ofList name.chars) []
  | q :: scope => if q.name = String.ofList name.chars then q.ty else name.meaning scope

mutual

def Expression.meaning (scope : List GenericParam) : Expression → Ty
  | .bare name => name.meaning scope
  | .applied name _ arguments => .named (String.ofList name.chars) (arguments.meaning scope)

def Arguments.meaning (scope : List GenericParam) : Arguments → List Ty
  | .last _ e _ => [e.meaning scope]
  | .more _ e _ rest => e.meaning scope :: rest.meaning scope

end

/-- The text does not begin with a character of the class. -/
def Stops (p : Char → Bool) (cs : List Char) : Prop :=
  ∀ c ∈ cs.head?, p c = false

section

variable {p : Char → Bool} {run run' rest rest' : List Char}

theorem takeWhile_append_of_stops (hrun : ∀ c ∈ run, p c = true) (hrest : Stops p rest) :
    (run ++ rest).takeWhile p = run := by
  have hnil : rest.takeWhile p = [] := by
    cases rest with
    | nil => rfl
    | cons c rest => simp [hrest c (by simp)]
  rw [List.takeWhile_append_of_pos hrun, hnil, List.append_nil]

theorem dropWhile_append_of_stops (hrun : ∀ c ∈ run, p c = true) (hrest : Stops p rest) :
    (run ++ rest).dropWhile p = rest := by
  rw [List.dropWhile_append_of_pos hrun]
  cases rest with
  | nil => rfl
  | cons c rest => simp [hrest c (by simp)]

/-- A text is cut in one way only into a run of a class and a rest that does not go on with it. -/
theorem run_unique (hrun : ∀ c ∈ run, p c = true) (hrun' : ∀ c ∈ run', p c = true)
    (hrest : Stops p rest) (hrest' : Stops p rest') (h : run ++ rest = run' ++ rest') :
    run = run' ∧ rest = rest' := by
  constructor
  · rw [← takeWhile_append_of_stops hrun hrest, h, takeWhile_append_of_stops hrun' hrest']
  · rw [← dropWhile_append_of_stops hrun hrest, h, dropWhile_append_of_stops hrun' hrest']

end

theorem isNameChar_eq_true_iff {c : Char} :
    isNameChar c = true ↔ c ≠ '<' ∧ c ≠ '>' ∧ c ≠ ',' ∧ isBlank c = false := by
  simp [isNameChar, and_assoc]

theorem Name.isNameChar (name : Name) : ∀ c ∈ name.chars, Ty.isNameChar c = true :=
  fun c hc => isNameChar_eq_true_iff.mpr (name.plain c hc)

theorem Name.stops_blank (name : Name) (cs : List Char) : Stops isBlank (name.chars ++ cs) := by
  intro c hc
  obtain ⟨first, chars, hchars⟩ := List.exists_cons_of_ne_nil name.nonempty
  rw [hchars, List.cons_append, List.head?_cons, Option.mem_some_iff] at hc
  subst hc
  exact (name.plain first (by simp [hchars])).2.2.2

theorem Expression.stops_blank (e : Expression) (cs : List Char) :
    Stops isBlank (e.text ++ cs) := by
  cases e with
  | bare name => exact name.stops_blank cs
  | applied name gap arguments =>
    rw [text, List.append_assoc]
    exact name.stops_blank _

theorem Blanks.stops_name (gap : Blanks) {cs : List Char} (h : Stops isNameChar cs) :
    Stops isNameChar (gap.chars ++ cs) := by
  obtain ⟨chars, hblank⟩ := gap
  cases chars with
  | nil => exact h
  | cons first chars =>
    intro c hc
    rw [List.cons_append, List.head?_cons, Option.mem_some_iff] at hc
    subst hc
    simp [isNameChar, hblank first (by simp)]

theorem stops_cons {p : Char → Bool} {c : Char} (h : p c = false) (cs : List Char) :
    Stops p (c :: cs) := by
  rintro c' hc'
  rw [List.head?_cons, Option.mem_some_iff] at hc'
  exact hc' ▸ h

/-- What may follow an expression: blanks, and then a mark that ends an argument or nothing. -/
def Follows (cs : List Char) : Prop :=
  ∃ (gap : Blanks) (rest : List Char), cs = gap.chars ++ rest ∧
    ∀ c ∈ rest.head?, c = ',' ∨ c = '>'

theorem Blanks.follows (gap : Blanks) : Follows gap.chars :=
  ⟨gap, [], by simp, by simp⟩

theorem Blanks.follows_cons (gap : Blanks) {c : Char} (h : c = ',' ∨ c = '>') (cs : List Char) :
    Follows (gap.chars ++ c :: cs) :=
  ⟨gap, c :: cs, rfl, by simpa using h⟩

theorem isBlank_of_mark {c : Char} (h : c = ',' ∨ c = '>') : isBlank c = false := by
  rcases h with rfl | rfl <;> decide

theorem Follows.stops_name {cs : List Char} (h : Follows cs) : Stops isNameChar cs := by
  obtain ⟨gap, rest, rfl, hmark⟩ := h
  refine gap.stops_name fun c hc => ?_
  rcases hmark c hc with rfl | rfl <;> decide

/-- The rest after the blanks does not open an argument list. -/
theorem Follows.ne_open {cs rest : List Char} (h : Follows cs) (gap : Blanks) :
    cs ≠ gap.chars ++ '<' :: rest := by
  obtain ⟨gap', rest', rfl, hmark⟩ := h
  intro he
  have hstops : Stops isBlank rest' := fun c hc => isBlank_of_mark (hmark c hc)
  obtain ⟨_, rfl⟩ := run_unique gap'.blank gap.blank hstops (stops_cons (by decide) rest) he
  simpa using hmark '<'

/-- A name ends where no name character follows. -/
theorem Name.text_unique {name name' : Name} {cs cs' : List Char} (h : Stops Ty.isNameChar cs)
    (h' : Stops Ty.isNameChar cs') (he : name.chars ++ cs = name'.chars ++ cs') :
    name = name' ∧ cs = cs' := by
  obtain ⟨hchars, hrest⟩ := run_unique name.isNameChar name'.isNameChar h h' he
  cases name
  cases name'
  simp_all

theorem Blanks.text_unique {gap gap' : Blanks} {cs cs' : List Char} (h : Stops isBlank cs)
    (h' : Stops isBlank cs') (he : gap.chars ++ cs = gap'.chars ++ cs') :
    gap = gap' ∧ cs = cs' := by
  obtain ⟨hchars, hrest⟩ := run_unique gap.blank gap'.blank h h' he
  cases gap
  cases gap'
  simp_all

theorem Blanks.stops_open (gap : Blanks) (cs : List Char) :
    Stops isNameChar (gap.chars ++ '<' :: cs) :=
  gap.stops_name (stops_cons (by decide) cs)

/-- Where nothing or the end of an argument follows, the text is that of this expression only. -/
def Expression.Readable (e : Expression) : Prop :=
  ∀ (e' : Expression) (cs cs' : List Char), Follows cs → Follows cs' →
    e.text ++ cs = e'.text ++ cs' → e = e' ∧ cs = cs'

/-- An argument is read up to the mark that ends it. -/
theorem Expression.Readable.argument {e e' : Expression} (h : e.Readable)
    {before before' after after' : Blanks} {c c' : Char} {cs cs' : List Char}
    (hc : c = ',' ∨ c = '>') (hc' : c' = ',' ∨ c' = '>')
    (he : before.chars ++ (e.text ++ (after.chars ++ c :: cs)) =
      before'.chars ++ (e'.text ++ (after'.chars ++ c' :: cs'))) :
    before = before' ∧ e = e' ∧ after = after' ∧ c = c' ∧ cs = cs' := by
  obtain ⟨hbefore, hrest⟩ := Blanks.text_unique (e.stops_blank _) (e'.stops_blank _) he
  obtain ⟨hexpression, hrest⟩ :=
    h e' _ _ (after.follows_cons hc cs) (after'.follows_cons hc' cs') hrest
  obtain ⟨hafter, hrest⟩ := Blanks.text_unique (stops_cons (isBlank_of_mark hc) cs)
    (stops_cons (isBlank_of_mark hc') cs') hrest
  obtain ⟨hmark, hrest⟩ := List.cons.inj hrest
  exact ⟨hbefore, hexpression, hafter, hmark, hrest⟩

mutual

theorem Expression.readable (e : Expression) : e.Readable := by
  intro e' cs cs' hcs hcs' he
  cases e with
  | bare name =>
    cases e' with
    | bare name' =>
      obtain ⟨rfl, rfl⟩ := Name.text_unique hcs.stops_name hcs'.stops_name he
      exact ⟨rfl, rfl⟩
    | applied name' gap' arguments' =>
      simp only [Expression.text, List.append_assoc, List.cons_append] at he
      obtain ⟨_, hopen⟩ := Name.text_unique hcs.stops_name (gap'.stops_open _) he
      exact absurd hopen (hcs.ne_open gap')
  | applied name gap arguments =>
    cases e' with
    | bare name' =>
      simp only [Expression.text, List.append_assoc, List.cons_append] at he
      obtain ⟨_, hopen⟩ := Name.text_unique (gap.stops_open _) hcs'.stops_name he
      exact absurd hopen.symm (hcs'.ne_open gap)
    | applied name' gap' arguments' =>
      simp only [Expression.text, List.append_assoc, List.cons_append, List.nil_append] at he
      obtain ⟨rfl, hrest⟩ := Name.text_unique (gap.stops_open _) (gap'.stops_open _) he
      obtain ⟨rfl, hopen⟩ := Blanks.text_unique (stops_cons (by decide) _)
        (stops_cons (by decide) _) hrest
      obtain ⟨rfl, rfl⟩ := arguments.readable arguments' cs cs' (List.cons.inj hopen).2
      exact ⟨rfl, rfl⟩

theorem Arguments.readable (a a' : Arguments) (cs cs' : List Char)
    (he : a.text ++ '>' :: cs = a'.text ++ '>' :: cs') : a = a' ∧ cs = cs' := by
  cases a with
  | last before e after =>
    cases a' with
    | last before' e' after' =>
      simp only [Arguments.text, List.append_assoc] at he
      obtain ⟨rfl, rfl, rfl, _, rfl⟩ := e.readable.argument (.inr rfl) (.inr rfl) he
      exact ⟨rfl, rfl⟩
    | more before' e' after' rest' =>
      simp only [Arguments.text, List.append_assoc, List.cons_append] at he
      obtain ⟨_, _, _, hmark, _⟩ := e.readable.argument (.inr rfl) (.inl rfl) he
      exact absurd hmark (by decide)
  | more before e after rest =>
    cases a' with
    | last before' e' after' =>
      simp only [Arguments.text, List.append_assoc, List.cons_append] at he
      obtain ⟨_, _, _, hmark, _⟩ := e.readable.argument (.inl rfl) (.inr rfl) he
      exact absurd hmark (by decide)
    | more before' e' after' rest' =>
      simp only [Arguments.text, List.append_assoc, List.cons_append] at he
      obtain ⟨rfl, rfl, rfl, _, hrest⟩ := e.readable.argument (.inl rfl) (.inl rfl) he
      obtain ⟨rfl, rfl⟩ := rest.readable rest' cs cs' hrest
      exact ⟨rfl, rfl⟩

end

/-- No text has two derivations. -/
theorem Phrase.text_injective {x y : Phrase} (h : x.text = y.text) : x = y := by
  obtain ⟨before, e, after⟩ := x
  obtain ⟨before', e', after'⟩ := y
  obtain ⟨rfl, hrest⟩ := Blanks.text_unique (e.stops_blank _) (e'.stops_blank _) h
  obtain ⟨rfl, hafter⟩ := e.readable e' _ _ after.follows after'.follows hrest
  cases after
  cases after'
  simp_all

end ShaderIR.Ty.Grammar
