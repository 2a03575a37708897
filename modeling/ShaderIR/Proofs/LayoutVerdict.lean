import ShaderIR.Proofs.CallStack

/-! What the verdict on layouts means. A program that passes validation uses only types that can be
constructed and contain themselves nowhere, however deep one looks; a program that is refused for a
recursive layout has the cycle of members that the refusal spells out. -/

namespace ShaderIR

namespace Program

variable {p : Program}

/-- The types that a program has to lay out: its own, and those of the methods it reaches. -/
inductive Uses (p : Program) : Ty → Prop
  | declared {d : TypeDecl} (hd : d ∈ p.types) (hg : d.isGeneric = false) : Uses p d.selfTy
  | mentioned {m : LocatedMethod} {ty : Ty} (hm : p.Reached m) (hty : m.method.Mentions ty)
      (hg : ty.isGeneric = false) : Uses p ty

theorem Uses.isGeneric {ty : Ty} (h : p.Uses ty) : ty.isGeneric = false := by
  cases h with
  | declared _ hg =>
    rename_i d _
    have hnone : d.genericParameters = [] := by simpa [TypeDecl.isGeneric] using hg
    simp [TypeDecl.selfTy, hnone, Ty.isGeneric, Ty.anyGeneric]
  | mentioned _ _ hg => exact hg

theorem Uses.mem_layoutRoots (hp : p.Distinct) {g : CallGraph} (hg : g.Complete p) {ty : Ty}
    (h : p.Uses ty) : ty ∈ p.layoutRoots g := by
  cases h with
  | declared hd hconcrete =>
    refine List.mem_append_left _ (List.mem_map_of_mem (List.mem_filter.mpr ⟨hd, ?_⟩))
    simp [hconcrete]
  | mentioned hm hty _ => exact List.mem_append_right _ (hg.types hp hm hty)

theorem LaidOut.of_contained {root ty : Ty} (h : p.LaidOut root)
    (hty : Relation.ReflTransGen p.Member root ty) : p.LaidOut ty := by
  induction hty with
  | refl => exact h
  | tail _ hm ih => exact ih.member hm

/-- The chain leads from a type through members of members back to the type. -/
def MemberCycle (p : Program) (chain : List Ty) : Prop :=
  ∃ ty middle, chain = ty :: middle ++ [ty] ∧ chain.IsChain p.Member

/-- The stack from a type on, followed by the type once more, is a cycle. -/
theorem memberCycle_of_mem {stack : List Ty} {ty : Ty} (hchain : (stack ++ [ty]).IsChain p.Member)
    (hs : ty ∈ stack) :
    p.MemberCycle (stack.dropWhile (fun t => decide (t ≠ ty)) ++ [ty]) := by
  have hsuffix := List.dropWhile_suffix (l := stack) fun t => decide (t ≠ ty)
  have hpath : stack.dropWhile (fun t => decide (t ≠ ty)) ++ [ty] <:+ stack ++ [ty] := by
    obtain ⟨before, hbefore⟩ := hsuffix
    exact ⟨before, by rw [← List.append_assoc, hbefore]⟩
  cases hrest : stack.dropWhile fun t => decide (t ≠ ty) with
  | nil => simpa using List.dropWhile_eq_nil_iff.mp hrest ty hs
  | cons first middle =>
    have hfirst : first = ty := by
      have hne := List.head?_dropWhile_not (fun t : Ty => decide (t ≠ ty)) stack
      rw [hrest] at hne
      simpa using hne
    rw [hrest] at hpath
    subst hfirst
    exact ⟨first, middle, rfl, hchain.suffix hpath⟩

end Program

namespace Layouts

variable {p : Program} {l : Layouts}

/-- If the walk reports a recursive layout, there is one. -/
def Witnesses (p : Program) (w : M Unit) (l : Layouts) : Prop :=
  w.Ends l (fun _ _ => True) fun e _ =>
    ∀ chain, e = .failed (.recursiveLayout chain) → p.MemberCycle chain

theorem witnesses_visitEach {visit : Ty → M Unit} {tys : List Ty}
    (hv : ∀ ty ∈ tys, ∀ l, Witnesses p (visit ty) l) : Witnesses p (visitEach visit tys) l := by
  induction tys generalizing l with
  | nil => trivial
  | cons ty rest ih =>
    refine Walk.Ends.andThen (hv ty List.mem_cons_self l) fun _ t _ => ?_
    exact ih fun ty' hty' => hv ty' (List.mem_cons_of_mem _ hty')

/-- Each type on the stack is a member of the one before it. -/
theorem witnesses_visit (depth : Nat) {stack : List Ty} {ty : Ty}
    (hchain : ty.isGeneric = false → (stack ++ [ty]).IsChain p.Member) :
    Witnesses p (visit p depth stack ty) l := by
  induction depth generalizing stack ty l with
  | zero =>
    intro chain he
    cases he
  | succ depth ih =>
    refine ends_visit (fun _ => trivial) (fun _ => trivial) ?_ ?_ ?_
    · intro hconcrete hs chain he
      cases he
      exact Program.memberCycle_of_mem (hchain hconcrete) hs
    · intro e hc chain he
      cases he
      have hrecursion := Program.construct_error hc
      cases hrecursion
    · intro i hconcrete _ hc
      refine Walk.Ends.andThen (witnesses_visitEach fun member hmember l' => ?_)
        fun _ _ _ => trivial
      refine ih fun hm => List.isChain_append.mpr ⟨hchain hconcrete, List.isChain_singleton _, ?_⟩
      intro last hlast next hnext
      obtain rfl : ty = last := by simpa using hlast
      obtain rfl : member = next := by simpa using hnext
      exact ⟨i, hc, hmember, hm⟩

end Layouts

namespace Program

variable {p : Program} {depth : Nat} {j : Journal}

theorem callPhase_ne_recursiveLayout (chain : List Ty) :
    (p.callPhase depth j).1 ≠ .error (.failed (.recursiveLayout chain)) := by
  intro h
  cases callPhase_fault h with
  | unresolved _ _ he =>
    have hrecursion := resolve_error he
    cases hrecursion

theorem layoutPhase_memberCycle {g : CallGraph} {chain : List Ty}
    (h : (p.layoutPhase depth g).1 = .error (.failed (.recursiveLayout chain))) :
    p.MemberCycle chain := by
  have hwalk : Layouts.Witnesses p (Layouts.visitEach (Layouts.visit p depth []) (p.layoutRoots g))
      { journal := g.journal } :=
    Layouts.witnesses_visitEach fun ty _ _ =>
      Layouts.witnesses_visit depth fun _ => List.isChain_singleton ty
  exact Walk.Ends.of_error hwalk h chain rfl

/-- In a program that passes validation, all that the types it uses contain can be constructed and
nothing among it contains itself. In a program that is refused for a recursive layout, each type of
the chain is a member of the type before it, and the last one is the first. -/
theorem validateWithin_layout_verdict (hp : p.Distinct) (depth : Nat) (j : Journal) :
    (((p.validateWithin depth).outcome j).1 = .ok () → ∀ root, p.Uses root →
      ∀ ty, Relation.ReflTransGen p.Member root ty →
        (∃ i, p.construct ty = .ok i) ∧ ¬ Relation.TransGen p.Member ty ty) ∧
    ∀ chain, ((p.validateWithin depth).outcome j).1 = .error (.failed (.recursiveLayout chain)) →
      ∃ ty middle, chain = ty :: middle ++ [ty] ∧ chain.IsChain p.Member := by
  constructor
  · intro h root hroot ty hty
    obtain ⟨g, hcalls, hlayouts⟩ := phases_of_ok h
    have hmem := hroot.mem_layoutRoots hp (callPhase_complete hp hcalls)
    have hlaid := (layoutPhase_laidOut hlayouts hmem hroot.isGeneric).of_contained hty
    refine ⟨?_, hlaid.not_transGen⟩
    obtain ⟨hc, _⟩ := hlaid
    exact ⟨_, hc⟩
  · intro chain h
    rw [outcome_validateWithin] at h
    rcases hc : p.callPhase depth j with ⟨e | u, g⟩
    · rw [hc] at h
      have hphase : (p.callPhase depth j).1 = .error (.failed (.recursiveLayout chain)) := by
        rw [hc]
        exact h
      exact absurd hphase (callPhase_ne_recursiveLayout chain)
    · rw [hc] at h
      exact layoutPhase_memberCycle h

namespace Nest

def unit : Ty := .named "Unit" []

def leaf : Ty := .named "Leaf" []

def box (ty : Ty) : Ty := .named "Box" [ty]

/-- A method with a variable of a boxed leaf. -/
def main : Method where
  owner := .named "Shader" []
  name := "main"
  attributes := [.static]
  body := [.define (box leaf)]

/-- A program whose leaves have the given content. -/
def program (content : Ty) : Program where
  name := "nest"
  types :=
    [{ fullName := "Unit" }, { fullName := "Leaf", fields := [⟨"content", content⟩] },
      { fullName := "Box", genericParameters := [⟨"T", []⟩], fields := [⟨"value", .param "T" []⟩] },
      { fullName := "Shader", methods := [main] }]

theorem distinct (content : Ty) : (program content).Distinct := by
  have hnames : ["Unit", "Leaf", "Box", "Shader"].Nodup := by decide
  exact hnames

theorem uses_box (content : Ty) : (program content).Uses (box leaf) := by
  have hmethods : (program content).methods = [⟨⟨⟨[], "Shader"⟩, 0, none, none⟩, main⟩] := rfl
  have hmain : (program content).Reached ⟨⟨⟨[], "Shader"⟩, 0, none, none⟩, main⟩ :=
    .declared (hmethods ▸ List.mem_singleton_self _) rfl
  exact .mentioned hmain (.inr (.inr (List.mem_singleton_self _))) rfl

/-- The unit is found two members down. -/
theorem contained_unit : Relation.ReflTransGen (program unit).Member (box leaf) unit := by
  have hbox : (program unit).Member (box leaf) leaf := ⟨_, rfl, List.mem_singleton_self _, rfl⟩
  have hleaf : (program unit).Member leaf unit := ⟨_, rfl, List.mem_singleton_self _, rfl⟩
  exact .tail (.single hbox) hleaf

end Nest

theorem validateWithin_layout_verdict_nest :
    ((((Nest.program Nest.unit).validateWithin depthLimit).outcome {}).1 = .ok () ∧
      (∃ i, (Nest.program Nest.unit).construct Nest.unit = .ok i) ∧
      ¬ Relation.TransGen (Nest.program Nest.unit).Member Nest.unit Nest.unit) ∧
    (((Nest.program (Nest.box Nest.leaf)).validateWithin depthLimit).outcome {}).1 =
        .error (.failed (.recursiveLayout [Nest.leaf, Nest.box Nest.leaf, Nest.leaf])) ∧
      ∃ ty middle, [Nest.leaf, Nest.box Nest.leaf, Nest.leaf] = ty :: middle ++ [ty] ∧
        [Nest.leaf, Nest.box Nest.leaf, Nest.leaf].IsChain
          (Nest.program (Nest.box Nest.leaf)).Member := by
  have hok : (((Nest.program Nest.unit).validateWithin depthLimit).outcome {}).1 = .ok () := by
    decide +kernel
  have herror : (((Nest.program (Nest.box Nest.leaf)).validateWithin depthLimit).outcome {}).1 =
      .error (.failed (.recursiveLayout [Nest.leaf, Nest.box Nest.leaf, Nest.leaf])) := by
    decide +kernel
  exact ⟨⟨hok, (validateWithin_layout_verdict (Nest.distinct _) depthLimit {}).1 hok _
      (Nest.uses_box _) _ Nest.contained_unit⟩, herror,
    (validateWithin_layout_verdict (Nest.distinct _) depthLimit {}).2 _ herror⟩

end Program

end ShaderIR
