import Mathlib.Order.WellFounded
import ShaderIR.Proofs.CallStack
import ShaderIR.Proofs.SiblingInstances

/-! What a report of recursion says about the calls of a program. The path that it spells out leads
from an instance of a declared method to another one of the same. The second instance makes the
same calls as the first if the declared methods on the path name the owners of what they call, so
the calls go on forever, unless some reference further on does not resolve. -/

namespace ShaderIR.Program

variable {p : Program}

/-- A path of calls from the method goes on forever. -/
def Unending (p : Program) (m : LocatedMethod) : Prop :=
  ∃ path : Nat → LocatedMethod, path 0 = m ∧ ∀ n, p.Calls (path n) (path (n + 1))

theorem unending_iff_not_acc {m : LocatedMethod} :
    p.Unending m ↔ ¬ Acc (fun callee caller => p.Calls caller callee) m :=
  (not_acc_iff_exists_descending_chain (r := fun callee caller => p.Calls caller callee)).symm

theorem Reached.of_calls {m callee : LocatedMethod} (h : p.Reached m)
    (hcalls : Relation.ReflTransGen p.Calls m callee) : p.Reached callee := by
  induction hcalls with
  | refl => exact h
  | tail _ hc ih => exact .call ih hc

theorem Reached.of_isChain {first : LocatedMethod} {rest : List LocatedMethod}
    (h : p.Reached first) (hpath : (first :: rest).IsChain p.Calls) :
    ∀ m ∈ first :: rest, p.Reached m :=
  hpath.induction _ _ (fun _ _ hc hm => .call hm hc) fun _ => h

theorem Origin.definition {m : LocatedMethod} {d : TypeDecl} {declared : Method}
    {s : Substitution} (h : p.Origin m d declared s) :
    p.definition? m.id = some ⟨⟨m.id.site, m.id.index, none, none⟩, declared⟩ := by
  obtain ⟨home, hhome, hd⟩ := h.stands
  have hname := fullName_of_findLocal? hd
  simp [definition?, hhome, hd, declaredMethods, h.position, hname]

theorem exists_next_of_isChain {α : Type} {R : α → α → Prop} {xs : List α} {last : α}
    (h : (xs ++ [last]).IsChain R) {x : α} (hx : x ∈ xs) : ∃ y, R x y ∧ (y ∈ xs ∨ y = last) := by
  obtain ⟨before, after, rfl⟩ := List.append_of_mem hx
  cases after with
  | nil =>
    have hlast : (before ++ x :: last :: []).IsChain R := by simpa using h
    exact ⟨last, (List.isChain_append_cons_cons.mp hlast).2.1, .inr rfl⟩
  | cons y rest =>
    have hnext : (before ++ x :: y :: (rest ++ [last])).IsChain R := by simpa using h
    exact ⟨y, (List.isChain_append_cons_cons.mp hnext).2.1, .inl (by simp)⟩

/-- The methods of the path have a successor in it, and so do their siblings, whose successors are
siblings of methods of the path again. -/
theorem not_acc_of_cycle (hp : p.Distinct) (ho : ∀ d ∈ p.types, d.Owned)
    {first last : LocatedMethod} {middle : List LocatedMethod} (hfirst : p.Reached first)
    (hpath : (first :: middle ++ [last]).IsChain p.Calls)
    (hsame : first.id.definition = last.id.definition)
    (hnames : ∀ m ∈ first :: middle, ∀ declared, p.definition? m.id = some declared →
      declared.method.NamesOwners)
    (hresolved : ∀ m, Relation.ReflTransGen p.Calls first m → ∀ r, m.method.Refers r →
      ∃ target, p.resolve r = .ok target) :
    ¬ Acc (fun callee caller => p.Calls caller callee) first := by
  have hreached := hfirst.of_isChain hpath
  have hstuck : ∀ m, Acc (fun callee caller => p.Calls caller callee) m →
      Relation.ReflTransGen p.Calls first m →
      (∃ frame ∈ first :: middle, frame.id.definition = m.id.definition) → False := by
    intro m hacc
    induction hacc with
    | intro m _ ih =>
      rintro hm ⟨frame, hframe, he⟩
      obtain ⟨next, hcall, hnext⟩ := exists_next_of_isChain hpath hframe
      obtain ⟨d, declared, s, horigin⟩ :=
        (hreached frame (List.mem_append_left _ hframe)).exists_origin hp ho
      obtain ⟨_, _, _, horigin'⟩ := (hfirst.of_calls hm).exists_origin hp ho
      obtain ⟨callee, hcallee, hdefinition⟩ := horigin.exists_call horigin' he
        (hnames frame hframe _ horigin.definition) hcall (hresolved m hm)
      refine ih callee hcallee (hm.tail hcallee) ?_
      rcases hnext with hnext | rfl
      · exact ⟨next, hnext, hdefinition.symm⟩
      · exact ⟨first, List.mem_cons_self, hsame.trans hdefinition.symm⟩
  exact fun hacc => hstuck first hacc .refl ⟨first, List.mem_cons_self, rfl⟩

/-- So the calls go on forever, if they do not come to a reference that cannot be resolved. -/
theorem unending_or_unresolved (hp : p.Distinct) (ho : ∀ d ∈ p.types, d.Owned)
    {first last : LocatedMethod} {middle : List LocatedMethod} (hfirst : p.Reached first)
    (hpath : (first :: middle ++ [last]).IsChain p.Calls)
    (hsame : first.id.definition = last.id.definition)
    (hnames : ∀ m ∈ first :: middle, ∀ declared, p.definition? m.id = some declared →
      declared.method.NamesOwners) :
    p.Unending first ∨ ∃ m r e, Relation.ReflTransGen p.Calls first m ∧ m.method.Refers r ∧
      p.resolve r = .error e := by
  by_cases hresolved : ∀ m, Relation.ReflTransGen p.Calls first m → ∀ r, m.method.Refers r →
      ∃ target, p.resolve r = .ok target
  · exact .inl (unending_iff_not_acc.mpr
      (not_acc_of_cycle hp ho hfirst hpath hsame hnames hresolved))
  · push Not at hresolved
    obtain ⟨m, hm, r, hr, hnone⟩ := hresolved
    cases he : p.resolve r with
    | ok target => exact absurd he (hnone target)
    | error e => exact .inr ⟨m, r, e, hm, hr, he⟩

/-! The verdict on a program all of whose references resolve. -/

/-- No declared method calls a method of a generic parameter. -/
structure NamesOwners (p : Program) : Prop where
  visible : ∀ name path d, p.find? name = some (path, d) → ∀ m ∈ d.methods, m.NamesOwners
  own : ∀ d ∈ p.types, ∀ m ∈ d.methods, m.NamesOwners

/-- All references of the methods that are reached resolve. -/
def Resolved (p : Program) : Prop :=
  ∀ m r, p.Reached m → m.method.Refers r → ∃ target, p.resolve r = .ok target

/-- Validation refuses the program for recursion. -/
def ReportsRecursion (p : Program) (depth : Nat) (j : Journal) : Prop :=
  ∃ chain, ((p.validateWithin depth).outcome j).1 = .error (.failed (.recursiveCall chain))

variable {depth : Nat} {j : Journal}

theorem validateWithin_eq_recursiveCall_iff {chain : List String} :
    ((p.validateWithin depth).outcome j).1 = .error (.failed (.recursiveCall chain)) ↔
      (p.callPhase depth j).1 = .error (.failed (.recursiveCall chain)) := by
  rw [outcome_validateWithin]
  rcases p.callPhase depth j with ⟨e | u, g⟩
  · exact Iff.rfl
  · simp [layoutPhase_ne_recursiveCall]

theorem NamesOwners.of_definition (h : p.NamesOwners) {m declared : LocatedMethod}
    (hm : p.Reached m) (hd : p.definition? m.id = some declared) :
    declared.method.NamesOwners := by
  simp only [definition?, bind, Option.bind_eq_some_iff] at hd
  obtain ⟨home, hhome, d, hfound, hdeclared⟩ := hd
  obtain ⟨⟨method, index⟩, hmem, rfl⟩ := List.mem_map.mp (List.mem_of_getElem? hdeclared)
  have hmethod : method ∈ d.methods := List.fst_mem_of_mem_zipIdx hmem
  obtain ⟨_, hvisible, _, _⟩ := hm.exists_placed
  rcases hvisible with hpath | ⟨d', hfind⟩
  · have hself : p = home := by simpa [hpath, atPath?] using hhome
    exact h.own d (hself ▸ List.mem_of_find?_eq_some hfound) method hmethod
  · obtain ⟨home', hhome', hfound'⟩ := atPath?_of_find? p hfind
    rw [hhome'] at hhome
    cases hhome
    rw [hfound'] at hfound
    cases hfound
    exact h.visible _ _ d hfind method hmethod

/-- Recursion is reported just if some path of calls goes on forever. -/
theorem reportsRecursion_iff (hp : p.Distinct) (ho : ∀ d ∈ p.types, d.Owned)
    (hnames : p.NamesOwners) (hresolved : p.Resolved) (hdepth : p.declarationCount < depth) :
    p.ReportsRecursion depth j ↔ ∃ m, p.Reached m ∧ p.Unending m := by
  constructor
  · rintro ⟨chain, hchain⟩
    obtain ⟨first, middle, last, hfirst, hpath, hsame, _⟩ :=
      callPhase_cycle hp (validateWithin_eq_recursiveCall_iff.mp hchain)
    have hreached := hfirst.of_isChain hpath
    refine ⟨first, hfirst, ?_⟩
    have hcalls := unending_or_unresolved hp ho hfirst hpath hsame fun m hm declared hd =>
      hnames.of_definition (hreached m (List.mem_append_left _ hm)) hd
    refine hcalls.resolve_right ?_
    rintro ⟨m, r, e, hm, hr, he⟩
    obtain ⟨target, htarget⟩ := hresolved m r (hfirst.of_calls hm) hr
    rw [htarget] at he
    cases he
  · rintro ⟨m, hm, hunending⟩
    rcases hc : p.callPhase depth j with ⟨e | u, g⟩
    · have hphase : (p.callPhase depth j).1 = .error e := by rw [hc]
      cases callPhase_fault hphase with
      | recursion chain => exact ⟨chain, validateWithin_eq_recursiveCall_iff.mpr hphase⟩
      | unresolved hm hr he =>
        obtain ⟨target, htarget⟩ := hresolved _ _ hm hr
        rw [htarget] at he
        cases he
      | tooDeep hle => omega
    · have hg := callPhase_complete hp hc
      exact absurd (hg.wellFounded m (hm.locates hp) (hg.done hp hm))
        (unending_iff_not_acc.mp hunending)

end ShaderIR.Program
