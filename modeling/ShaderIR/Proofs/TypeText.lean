import ShaderIR.Proofs.TypeExpressions

/-! The texts of types. A type that can be denoted in a scope is read back from its text, and the
reader gives no other types, so reading what was read and written again changes nothing. -/

namespace ShaderIR.Ty

open Text Grammar

def PlainName (name : String) : Prop :=
  name ≠ "" ∧ ∀ c ∈ name.toList, c ≠ '<' ∧ c ≠ '>' ∧ c ≠ ',' ∧ isBlank c = false

/-- The parameter is the first of its name. -/
def FirstOf (scope : List GenericParam) (q : GenericParam) : Prop :=
  ∃ before after, scope = before ++ q :: after ∧ ∀ r ∈ before, r.name ≠ q.name

/-- What a text can denote. The names in the constraint sets of a parameter do not matter: they are
not written, and the scope gives them. -/
inductive Denotable (scope : List GenericParam) : Ty → Prop
  | param {q : GenericParam} (hname : PlainName q.name) (hfirst : FirstOf scope q) :
      Denotable scope q.ty
  | named {name : String} {arguments : List Ty} (hname : PlainName name)
      (hfree : arguments = [] → ∀ q ∈ scope, q.name ≠ name)
      (harguments : ∀ t ∈ arguments, Denotable scope t) : Denotable scope (.named name arguments)

theorem PlainName.exists_chars {name : String} (h : PlainName name) :
    ∃ n : Name, n.chars = name.toList := by
  have hne : name.toList ≠ [] := by
    intro hnil
    rw [String.toList_eq_nil_iff] at hnil
    exact h.1 hnil
  exact ⟨⟨name.toList, hne, h.2⟩, rfl⟩

theorem plainName_ofList (n : Name) : PlainName (String.ofList n.chars) := by
  constructor
  · intro hempty
    have hnil := congrArg String.toList hempty
    rw [String.toList_ofList] at hnil
    exact n.nonempty hnil
  · rw [String.toList_ofList]
    exact n.plain

section Names

variable {scope : List GenericParam} {q : GenericParam} {name : Name}

theorem firstOf_cons_self : FirstOf (q :: scope) q :=
  ⟨[], scope, rfl, by simp⟩

theorem FirstOf.cons {r : GenericParam} (h : FirstOf scope q) (hne : r.name ≠ q.name) :
    FirstOf (r :: scope) q := by
  obtain ⟨before, after, rfl, hbefore⟩ := h
  refine ⟨r :: before, after, rfl, ?_⟩
  intro r' hr'
  rcases List.mem_cons.mp hr' with rfl | hr'
  · exact hne
  · exact hbefore r' hr'

theorem FirstOf.meaning_eq (h : FirstOf scope q) (hname : String.ofList name.chars = q.name) :
    name.meaning scope = q.ty := by
  obtain ⟨before, after, rfl, hbefore⟩ := h
  induction before with
  | nil => simp [Name.meaning, hname]
  | cons r before ih =>
    have hr : r.name ≠ q.name := hbefore r (by simp)
    have hrest := ih fun r' hr' => hbefore r' (by simp [hr'])
    simpa [Name.meaning, hname, hr] using hrest

theorem Name.meaning_of_forall_ne (h : ∀ q ∈ scope, q.name ≠ String.ofList name.chars) :
    name.meaning scope = .named (String.ofList name.chars) [] := by
  induction scope with
  | nil => rfl
  | cons r scope ih =>
    have hr := h r (by simp)
    have hrest := ih fun q hq => h q (by simp [hq])
    simpa [Name.meaning, hr] using hrest

/-- A bare name denotes the first parameter of that name, unless there is none. -/
theorem Name.meaning_cases (scope : List GenericParam) (name : Name) :
    (∃ q, FirstOf scope q ∧ q.name = String.ofList name.chars ∧ name.meaning scope = q.ty) ∨
      ∀ q ∈ scope, q.name ≠ String.ofList name.chars := by
  induction scope with
  | nil => exact .inr (by simp)
  | cons r scope ih =>
    by_cases hr : r.name = String.ofList name.chars
    · exact .inl ⟨r, firstOf_cons_self, hr, by simp [Name.meaning, hr]⟩
    · rcases ih with ⟨q, hfirst, hname, hmeaning⟩ | hfree
      · refine .inl ⟨q, hfirst.cons (hname ▸ hr), hname, ?_⟩
        simpa [Name.meaning, hr] using hmeaning
      · exact .inr (List.forall_mem_cons.mpr ⟨hr, hfree⟩)

end Names

def Grammar.Blanks.none : Blanks :=
  ⟨[], by simp⟩

def Grammar.Blanks.space : Blanks :=
  ⟨[' '], by simp [isBlank]⟩

/-- The type is what some expression means that is written as the type is. -/
def IsWritten (scope : List GenericParam) (t : Ty) : Prop :=
  ∃ e : Expression, e.text = t.text.toList ∧ e.meaning scope = t

theorem IsWritten.parse_text_eq {scope : List GenericParam} {t : Ty} (h : IsWritten scope t) :
    parse scope t.text = .ok t := by
  obtain ⟨e, htext, hmeaning⟩ := h
  have hphrase : Phrase.text ⟨.none, e, .none⟩ = t.text.toList := by
    simpa [Phrase.text, Blanks.none] using htext
  have hread : parse scope t.text = .ok (e.meaning scope) := parse_text hphrase
  rwa [hmeaning] at hread

theorem isWritten_bare {scope : List GenericParam} {t : Ty} {name : Name}
    (htext : t.text.toList = name.chars) (hmeaning : name.meaning scope = t) :
    IsWritten scope t :=
  ⟨.bare name, htext.symm, hmeaning⟩

/-- Arguments after the first are set off by a comma and a space. -/
theorem exists_arguments {scope : List GenericParam} (before : Blanks) {t : Ty} {ts : List Ty}
    (h : ∀ a ∈ t :: ts, IsWritten scope a) :
    ∃ a : Arguments, a.text = before.chars ++ (t.text.toList ++ (textTail ts).toList) ∧
      a.meaning scope = t :: ts := by
  induction ts generalizing before t with
  | nil =>
    obtain ⟨e, htext, hmeaning⟩ := h t (by simp)
    refine ⟨.last before e .none, ?_, ?_⟩
    · simp [Arguments.text, htext, textTail, Blanks.none]
    · simp [Arguments.meaning, hmeaning]
  | cons u ts ih =>
    obtain ⟨e, htext, hmeaning⟩ := h t (by simp)
    obtain ⟨rest, hrest, hmeanings⟩ := ih .space fun a ha => h a (List.mem_cons_of_mem t ha)
    refine ⟨.more before e .none rest, ?_, ?_⟩
    · simp [Arguments.text, htext, hrest, textTail, Blanks.none, Blanks.space]
    · simp [Arguments.meaning, hmeaning, hmeanings]

theorem Denotable.isWritten {scope : List GenericParam} {t : Ty} (h : Denotable scope t) :
    IsWritten scope t := by
  induction h with
  | @param q hname hfirst =>
    obtain ⟨n, hn⟩ := hname.exists_chars
    have hq : String.ofList n.chars = q.name := by rw [hn, String.ofList_toList]
    exact isWritten_bare hn.symm (hfirst.meaning_eq hq)
  | @named name arguments hname hfree _ ih =>
    obtain ⟨n, hn⟩ := hname.exists_chars
    have hq : String.ofList n.chars = name := by rw [hn, String.ofList_toList]
    cases arguments with
    | nil =>
      have hmeaning : n.meaning scope = .named (String.ofList n.chars) [] :=
        Name.meaning_of_forall_ne (hq ▸ hfree rfl)
      rw [hq] at hmeaning
      exact isWritten_bare hn.symm hmeaning
    | cons t ts =>
      obtain ⟨a, htext, hmeaning⟩ := exists_arguments .none ih
      refine ⟨.applied n .none a, ?_, ?_⟩
      · simp [Expression.text, htext, hn, text, Blanks.none]
      · simp [Expression.meaning, hmeaning, hq]

theorem denotable_bare (scope : List GenericParam) (name : Name) :
    Denotable scope (name.meaning scope) := by
  have hplain := plainName_ofList name
  rcases Name.meaning_cases scope name with ⟨q, hfirst, hname, hmeaning⟩ | hfree
  · rw [hmeaning]
    exact .param (hname ▸ hplain) hfirst
  · rw [Name.meaning_of_forall_ne hfree]
    exact .named hplain (fun _ => hfree) (by simp)

mutual

theorem denotable_meaning (scope : List GenericParam) (e : Expression) :
    Denotable scope (e.meaning scope) := by
  cases e with
  | bare name => exact denotable_bare scope name
  | applied name gap arguments =>
    have harguments := denotable_arguments scope arguments
    exact .named (plainName_ofList name) (fun hnil => absurd hnil harguments.1) harguments.2

/-- An argument list is never empty, so a name that is applied denotes no parameter. -/
theorem denotable_arguments (scope : List GenericParam) (a : Arguments) :
    a.meaning scope ≠ [] ∧ ∀ t ∈ a.meaning scope, Denotable scope t := by
  cases a with
  | last before e after =>
    have he := denotable_meaning scope e
    simpa [Arguments.meaning] using he
  | more before e after rest =>
    have he := denotable_meaning scope e
    have hrest := denotable_arguments scope rest
    simpa [Arguments.meaning, he] using hrest.2

end

theorem denotable_of_parse {scope : List GenericParam} {expr : String} {t : Ty}
    (h : parse scope expr = .ok t) : Denotable scope t := by
  obtain ⟨x, _, hmeaning⟩ := exists_text_of_parse h
  exact hmeaning ▸ denotable_meaning scope x.expression

end ShaderIR.Ty

namespace ShaderIR.Manifest

open Ty (Denotable)

theorem parseType_eq_ok_iff {scope : List GenericParam} {expr : String} {t : Ty} :
    parseType scope expr = .ok t ↔ Ty.parse scope expr = .ok t := by
  unfold parseType
  cases Ty.parse scope expr <;> simp

/-- Writing and reading are inverse. Every type that can be denoted is what its text is read as, and
everything that is read can be denoted. -/
theorem parseType_text_inverse (scope : List GenericParam) :
    (∀ t : Ty, Denotable scope t → parseType scope t.text = .ok t) ∧
      ∀ (expr : String) (t : Ty), parseType scope expr = .ok t →
        Denotable scope t ∧ parseType scope t.text = .ok t := by
  have hwritten : ∀ t : Ty, Denotable scope t → parseType scope t.text = .ok t :=
    fun t ht => parseType_eq_ok_iff.mpr ht.isWritten.parse_text_eq
  refine ⟨hwritten, fun expr t h => ?_⟩
  have ht := Ty.denotable_of_parse (parseType_eq_ok_iff.mp h)
  exact ⟨ht, hwritten t ht⟩

namespace Pairing

def float : Ty := .named "Float" []

def constrained : GenericParam := ⟨"T", [[float]]⟩

/-- The second parameter is hidden by the first. -/
def scope : List GenericParam :=
  [constrained, ⟨"T", []⟩]

/-- The name of a parameter with arguments, which makes it the name of a type. -/
def pair : Ty :=
  .named "Pair" [constrained.ty, .named "T" [float, constrained.ty]]

theorem denotable_pair : Denotable scope pair := by
  have hplain : ∀ name ∈ ["Pair", "T", "Float"], Ty.PlainName name := by
    simp [Ty.PlainName, Text.isBlank]
  have hparameter : Denotable scope constrained.ty :=
    .param (hplain "T" (by decide)) Ty.firstOf_cons_self
  have hfloat : Denotable scope float := by
    refine .named (hplain "Float" (by decide)) (fun _ => ?_) (by simp)
    simp [scope, constrained]
  have hinner : Denotable scope (.named "T" [float, constrained.ty]) :=
    .named (hplain "T" (by decide)) (by simp) (by simp [hfloat, hparameter])
  exact .named (hplain "Pair" (by decide)) (by simp) (by simp [hparameter, hinner])

end Pairing

theorem parseType_text_inverse_pair :
    Denotable Pairing.scope Pairing.pair ∧ Pairing.pair.text = "Pair<T, T<Float, T>>" ∧
      parseType Pairing.scope "Pair<T, T<Float, T>>" = .ok Pairing.pair ∧
      parseType Pairing.scope " Pair <T,T\t<Float ,T> >" = .ok Pairing.pair := by
  have htext : Pairing.pair.text = "Pair<T, T<Float, T>>" := by decide +kernel
  have hwritten := (parseType_text_inverse Pairing.scope).1 _ Pairing.denotable_pair
  have hread : parseType Pairing.scope " Pair <T,T\t<Float ,T> >" = .ok Pairing.pair :=
    parseType_eq_ok_iff.mpr (by decide +kernel)
  have hdenoted := ((parseType_text_inverse Pairing.scope).2 _ _ hread).1
  exact ⟨hdenoted, htext, htext ▸ hwritten, hread⟩

end ShaderIR.Manifest
