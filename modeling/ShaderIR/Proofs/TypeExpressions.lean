import Mathlib.Data.List.TakeWhile
import ShaderIR.Manifest.Load
import ShaderIR.Proofs.TypeGrammar

/-! Reading type expressions. The reader accepts the texts of the grammar and no others, and gives
each the meaning of its only derivation; the bound on its depth is never what makes it refuse. -/

namespace ShaderIR.Ty

open Text Grammar

variable {scope : List GenericParam} {fuel : Nat} {cs rest : List Char}

theorem ofName_eq_meaning (scope : List GenericParam) (name : Name) :
    ofName scope (String.ofList name.chars) = name.meaning scope := by
  induction scope with
  | nil => rfl
  | cons q scope ih =>
    rw [Name.meaning, ← ih, ofName, ofName, List.find?_cons]
    by_cases hq : q.name = String.ofList name.chars
    · simp [hq]
    · simp [hq, beq_eq_false_iff_ne.mpr hq]

theorem exists_blanks (cs : List Char) : ∃ gap : Blanks, cs = gap.chars ++ trimStart cs :=
  ⟨⟨cs.takeWhile isBlank, fun _ hc => (List.mem_takeWhile_imp hc)⟩,
    (List.takeWhile_append_dropWhile).symm⟩

theorem exists_name (h : cs.takeWhile isNameChar ≠ []) :
    ∃ name : Name, cs.takeWhile isNameChar = name.chars :=
  ⟨⟨_, h, fun _ hc => isNameChar_eq_true_iff.mp (List.mem_takeWhile_imp hc)⟩, rfl⟩

theorem trimStart_append (gap : Blanks) (h : Stops isBlank cs) :
    trimStart (gap.chars ++ cs) = cs :=
  dropWhile_append_of_stops gap.blank h

theorem trimStart_ne_open (h : Follows cs) (rest : List Char) : trimStart cs ≠ '<' :: rest := by
  intro hopen
  obtain ⟨gap, hgap⟩ := exists_blanks cs
  exact h.ne_open gap (hopen ▸ hgap)

section

variable (before : Blanks) (name : Name)

/-- Where no argument list follows, the name is all there is to read. -/
theorem parseAt_bare (h : Follows cs) :
    parseAt scope (fuel + 1) (before.chars ++ (name.chars ++ cs)) =
      .ok (name.meaning scope, trimStart cs) := by
  have hname : name.chars.isEmpty = false := by simpa using name.nonempty
  rw [parseAt, trimStart_append before (name.stops_blank cs)]
  simp only [takeWhile_append_of_stops name.isNameChar h.stops_name,
    dropWhile_append_of_stops name.isNameChar h.stops_name, hname, Bool.false_eq_true, if_false]
  split
  · rename_i rest hopen
    exact absurd hopen (trimStart_ne_open h rest)
  · rw [ofName_eq_meaning]

/-- After a name and an open bracket the arguments are read. -/
theorem parseAt_applied (gap : Blanks) {args : List Ty}
    (h : parseArguments scope fuel cs = .ok (args, rest)) :
    parseAt scope (fuel + 1) (before.chars ++ (name.chars ++ (gap.chars ++ '<' :: cs))) =
      .ok (.named (String.ofList name.chars) args, rest) := by
  have hname : name.chars.isEmpty = false := by simpa using name.nonempty
  have hopen : trimStart (gap.chars ++ '<' :: cs) = '<' :: cs :=
    trimStart_append gap (stops_cons (by decide) cs)
  rw [parseAt, trimStart_append before (name.stops_blank _)]
  simp only [takeWhile_append_of_stops name.isNameChar (gap.stops_open cs),
    dropWhile_append_of_stops name.isNameChar (gap.stops_open cs), hname, hopen, h,
    Bool.false_eq_true, if_false]

end

theorem length_text_pos (e : Expression) : 0 < e.text.length := by
  cases e with
  | bare name => exact List.length_pos_iff.mpr name.nonempty
  | applied name gap arguments =>
    have hname := List.length_pos_iff.mpr name.nonempty
    simp only [Expression.text, List.length_append]
    omega

mutual

/-- Every expression is read as what it means, up to whatever follows it. -/
theorem parseAt_text (e : Expression) (fuel : Nat) (before : Blanks) {cs : List Char}
    (hcs : Follows cs) (hfuel : 2 * e.text.length ≤ fuel + 1) :
    parseAt scope fuel (before.chars ++ (e.text ++ cs)) =
      .ok (e.meaning scope, trimStart cs) := by
  have hpos := length_text_pos e
  obtain ⟨fuel, rfl⟩ : ∃ n, fuel = n + 1 := ⟨fuel - 1, by omega⟩
  cases e with
  | bare name => exact parseAt_bare before name hcs
  | applied name gap arguments =>
    simp only [Expression.text, List.length_append, List.length_cons] at hfuel
    have harguments := parseArguments_text arguments fuel cs (by omega)
    simp only [Expression.text, List.append_assoc, List.cons_append, List.nil_append]
    exact parseAt_applied before name gap harguments

theorem parseArguments_text (a : Arguments) (fuel : Nat) (cs : List Char)
    (hfuel : 2 * a.text.length ≤ fuel) :
    parseArguments scope fuel (a.text ++ '>' :: cs) = .ok (a.meaning scope, trimStart cs) := by
  cases a with
  | last before e after =>
    have hpos := length_text_pos e
    simp only [Arguments.text, List.length_append] at hfuel
    obtain ⟨fuel, rfl⟩ : ∃ n, fuel = n + 1 := ⟨fuel - 1, by omega⟩
    have he := parseAt_text e fuel before (after.follows_cons (.inr rfl) cs) (by omega)
    rw [trimStart_append after (stops_cons (by decide) cs)] at he
    simp only [Arguments.text, List.append_assoc]
    rw [parseArguments, he]
    rfl
  | more before e after rest =>
    have hpos := length_text_pos e
    simp only [Arguments.text, List.length_append, List.length_cons] at hfuel
    obtain ⟨fuel, rfl⟩ : ∃ n, fuel = n + 1 := ⟨fuel - 1, by omega⟩
    have hrest := parseArguments_text rest fuel cs (by omega)
    have he := parseAt_text e fuel before
      (after.follows_cons (.inl rfl) (rest.text ++ '>' :: cs)) (by omega)
    rw [trimStart_append after (stops_cons (by decide) _)] at he
    simp only [Arguments.text, List.append_assoc, List.cons_append]
    rw [parseArguments, he]
    simp only [hrest]
    rfl

end

/-- What the reader does with a text that it accepts: it reads a name, and the arguments if an open
bracket comes next. -/
theorem parseAt_succ_eq_ok {t : Ty} (h : parseAt scope (fuel + 1) cs = .ok (t, rest)) :
    ∃ (before : Blanks) (name : Name) (gap : Blanks) (tail : List Char),
      cs = before.chars ++ (name.chars ++ (gap.chars ++ tail)) ∧
      ((∃ inner args, tail = '<' :: inner ∧ parseArguments scope fuel inner = .ok (args, rest) ∧
          t = .named (String.ofList name.chars) args) ∨
        tail = rest ∧ t = name.meaning scope) := by
  rw [parseAt] at h
  split at h
  · cases h
  rename_i hname
  obtain ⟨before, hbefore⟩ := exists_blanks cs
  have hnonempty : (trimStart cs).takeWhile isNameChar ≠ [] := by simpa using hname
  obtain ⟨name, hchars⟩ := exists_name hnonempty
  obtain ⟨gap, hgap⟩ := exists_blanks ((trimStart cs).dropWhile isNameChar)
  have hcs : cs = before.chars ++
      (name.chars ++ (gap.chars ++ trimStart ((trimStart cs).dropWhile isNameChar))) := by
    rw [← hgap, ← hchars, List.takeWhile_append_dropWhile]
    exact hbefore
  refine ⟨before, name, gap, _, hcs, ?_⟩
  rw [hchars] at h
  split at h
  · rename_i inner hopen
    split at h
    · rename_i args rest' hargs
      cases h
      exact .inl ⟨inner, args, hopen, hargs, rfl⟩
    · cases h
  · cases h
    exact .inr ⟨rfl, ofName_eq_meaning scope name⟩

/-- By induction on the depth bound, for an expression and for a list of arguments together: what is
read was written. -/
theorem exists_text_of_parse_within (fuel : Nat) :
    (∀ cs t rest, parseAt scope fuel cs = .ok (t, rest) →
      ∃ (before : Blanks) (e : Expression) (after : Blanks),
        cs = before.chars ++ (e.text ++ (after.chars ++ rest)) ∧ e.meaning scope = t) ∧
    ∀ cs ts rest, parseArguments scope fuel cs = .ok (ts, rest) →
      ∃ (a : Arguments) (after : Blanks),
        cs = a.text ++ '>' :: (after.chars ++ rest) ∧ a.meaning scope = ts := by
  induction fuel with
  | zero =>
    exact ⟨fun _ _ _ h => by simp [parseAt] at h, fun _ _ _ h => by simp [parseArguments] at h⟩
  | succ fuel ih =>
    obtain ⟨ihType, ihArguments⟩ := ih
    refine ⟨fun cs t rest h => ?_, fun cs ts rest h => ?_⟩
    · obtain ⟨before, name, gap, tail, rfl, hrest⟩ := parseAt_succ_eq_ok h
      rcases hrest with ⟨inner, args, rfl, hargs, rfl⟩ | ⟨rfl, rfl⟩
      · obtain ⟨a, after, rfl, rfl⟩ := ihArguments inner args rest hargs
        exact ⟨before, .applied name gap a, after, by simp [Expression.text], rfl⟩
      · exact ⟨before, .bare name, gap, rfl, rfl⟩
    · rw [parseArguments] at h
      split at h
      · cases h
      · rename_i t tail ht
        obtain ⟨before, e, after, rfl, rfl⟩ := ihType _ _ _ ht
        split at h
        · rename_i ts' rest' hargs
          cases h
          obtain ⟨a, last, rfl, rfl⟩ := ihArguments _ _ _ hargs
          exact ⟨.more before e after a, last, by simp [Arguments.text], rfl⟩
        · cases h
      · rename_i t tail ht
        cases h
        obtain ⟨before, e, after, rfl, rfl⟩ := ihType _ _ _ ht
        obtain ⟨last, hlast⟩ := exists_blanks tail
        refine ⟨.last before e after, last, ?_, rfl⟩
        simp only [Arguments.text, List.append_assoc, ← hlast]
      · cases h

theorem parse_text {expr : String} {x : Phrase} (h : x.text = expr.toList) :
    parse scope expr = .ok (x.expression.meaning scope) := by
  have hlength : x.expression.text.length ≤ expr.toList.length := by
    rw [← h, Phrase.text, List.length_append, List.length_append]
    omega
  have hblank : trimStart x.after.chars = [] := List.dropWhile_eq_nil_iff.mpr x.after.blank
  have hread : parseAt scope (2 * expr.toList.length + 1) x.text =
      .ok (x.expression.meaning scope, trimStart x.after.chars) :=
    parseAt_text x.expression _ x.before x.after.follows (by omega)
  rw [h, hblank] at hread
  simp [parse, hread, trimStart]

theorem exists_text_of_parse {expr : String} {t : Ty} (h : parse scope expr = .ok t) :
    ∃ x : Phrase, x.text = expr.toList ∧ x.expression.meaning scope = t := by
  unfold parse at h
  dsimp only at h
  split at h
  · rename_i rest hread
    split at h
    · rename_i hblank
      cases h
      obtain ⟨before, e, after, hexpr, rfl⟩ := (exists_text_of_parse_within _).1 _ _ _ hread
      obtain ⟨last, hlast⟩ := exists_blanks rest
      have hrest : rest = last.chars := by
        rw [List.isEmpty_iff.mp hblank, List.append_nil] at hlast
        exact hlast
      have hall : ∀ c ∈ after.chars ++ rest, isBlank c = true := by
        rw [hrest]
        exact List.forall_mem_append.mpr ⟨after.blank, last.blank⟩
      exact ⟨⟨before, e, ⟨after.chars ++ rest, hall⟩⟩, hexpr.symm, rfl⟩
    · cases h
  · cases h

end ShaderIR.Ty

namespace ShaderIR.Manifest

open Ty.Grammar

/-- A text that has a derivation has only one, and is read as the type that this means. Every other
text is refused for its syntax. -/
theorem parseType_derivation (scope : List GenericParam) (expr : String) :
    (∃ x : Phrase, x.text = expr.toList ∧ (∀ y : Phrase, y.text = expr.toList → y = x) ∧
      parseType scope expr = .ok (x.expression.meaning scope)) ∨
    ((∀ x : Phrase, x.text ≠ expr.toList) ∧
      ∃ fault, parseType scope expr = .error (.typeSyntax expr fault)) := by
  by_cases hx : ∃ x : Phrase, x.text = expr.toList
  · obtain ⟨x, hx⟩ := hx
    refine .inl ⟨x, hx, fun y hy => Phrase.text_injective (hy.trans hx.symm), ?_⟩
    rw [parseType, Ty.parse_text hx]
  · refine .inr ⟨fun x h => hx ⟨x, h⟩, ?_⟩
    cases hread : Ty.parse scope expr with
    | ok t =>
      obtain ⟨x, h, _⟩ := Ty.exists_text_of_parse hread
      exact absurd ⟨x, h⟩ hx
    | error fault => exact ⟨fault, by rw [parseType, hread]⟩

end ShaderIR.Manifest
