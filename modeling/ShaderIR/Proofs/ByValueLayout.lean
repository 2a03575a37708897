import Mathlib.Data.List.Nodup
import Mathlib.Data.List.Perm.Subperm
import Mathlib.Logic.Relation
import ShaderIR.Proofs.CallGraph
import ShaderIR.Validation.Layout

/-! By-value layouts. A type is laid out when it can be constructed and its members are laid out
before it; a walk over types comes to its end only if all of them are. It goes through distinct
types, so it ends whenever there are only finitely many of them to go through. -/

namespace ShaderIR

namespace Program

variable {p : Program}

/-- The concrete types that a type contains by value. -/
def Member (p : Program) (ty member : Ty) : Prop :=
  ∃ i, p.construct ty = .ok i ∧ member ∈ i.members ∧ member.isGeneric = false

/-- The layout of the type is well founded. -/
inductive LaidOut (p : Program) : Ty → Prop
  | intro {ty : Ty} {i : TypeInstance} (hc : p.construct ty = .ok i)
      (hm : ∀ member ∈ i.members, member.isGeneric = false → LaidOut p member) : LaidOut p ty

namespace LaidOut

theorem member {ty member : Ty} (h : p.LaidOut ty) (hm : p.Member ty member) :
    p.LaidOut member := by
  obtain ⟨hc, hmembers⟩ := h
  obtain ⟨i, hi, hmem, hg⟩ := hm
  rw [hc] at hi
  cases hi
  exact hmembers member hmem hg

theorem acc {ty : Ty} (h : p.LaidOut ty) : Acc (fun member ty => p.Member ty member) ty := by
  induction h with
  | intro hc _ ih =>
    refine Acc.intro _ fun member hm => ?_
    obtain ⟨i, hi, hmem, hg⟩ := hm
    rw [hc] at hi
    cases hi
    exact ih member hmem hg

theorem not_transGen {ty : Ty} (h : p.LaidOut ty) : ¬ Relation.TransGen p.Member ty ty :=
  not_transGen_of_acc h.acc

/-- No chain of members goes on forever. -/
theorem not_chain {ty : Ty} (h : p.LaidOut ty) {chain : Nat → Ty} (h₀ : chain 0 = ty)
    (hchain : ∀ n, p.Member (chain n) (chain (n + 1))) : False := by
  induction h.acc generalizing chain with
  | intro ty _ ih =>
    subst h₀
    have hrest : ∀ n, p.Member (chain (n + 1)) (chain (n + 1 + 1)) := fun n => hchain (n + 1)
    exact ih (chain 1) (hchain 0) (h.member (hchain 0)) rfl hrest

end LaidOut

end Program

namespace Layouts

variable {p : Program} {l : Layouts}

def Sound (p : Program) (l : Layouts) : Prop :=
  ∀ ty ∈ l.done, p.LaidOut ty

/-- Calls are none of the business of a walk over layouts. -/
def Reports (e : Stop IrError) : Prop :=
  ∀ chain, e ≠ .failed (.recursiveCall chain)

theorem outcome_visit_generic {depth : Nat} {stack : List Ty} {ty : Ty}
    (hg : ty.isGeneric = true) : (visit p (depth + 1) stack ty).outcome l = (.ok (), l) := by
  simp [visit, hg]

theorem outcome_visit_done {depth : Nat} {stack : List Ty} {ty : Ty} (hd : ty ∈ l.done) :
    (visit p (depth + 1) stack ty).outcome l = (.ok (), l) := by
  by_cases hg : ty.isGeneric = true
  · exact outcome_visit_generic hg
  · simp [visit, Walk.outcome_bind, hg, hd]

theorem outcome_visit_cycle {depth : Nat} {stack : List Ty} {ty : Ty}
    (hg : ty.isGeneric = false) (hd : ty ∉ l.done) (hs : ty ∈ stack) :
    (visit p (depth + 1) stack ty).outcome l =
      (.error (.failed (.recursiveLayout
        (stack.dropWhile (fun t => decide (t ≠ ty)) ++ [ty]))), l) := by
  simp [visit, Walk.outcome_bind, hg, hd, hs]

theorem outcome_visit_error {depth : Nat} {stack : List Ty} {ty : Ty} {e : IrError}
    (hg : ty.isGeneric = false) (hd : ty ∉ l.done) (hs : ty ∉ stack)
    (hc : p.construct ty = .error e) :
    (visit p (depth + 1) stack ty).outcome l =
      (.error (.failed e), { l with journal := l.journal.afterConstruct p ty }) := by
  simp [visit, construct, Walk.outcome_bind, hg, hd, hs, hc, Walk.ofExcept]

theorem outcome_visit_new {depth : Nat} {stack : List Ty} {ty : Ty} {i : TypeInstance}
    (hg : ty.isGeneric = false) (hd : ty ∉ l.done) (hs : ty ∉ stack)
    (hc : p.construct ty = .ok i) :
    (visit p (depth + 1) stack ty).outcome l =
      Walk.outcome (do
        visitEach (visit p depth (stack ++ [ty])) i.members
        modify fun l => { l with done := ty :: l.done })
        { l with journal := l.journal.afterConstruct p ty } := by
  simp [visit, construct, Walk.outcome_bind, hg, hd, hs, hc, Walk.ofExcept]

/-- What a visit can come to. -/
theorem ends_visit {depth : Nat} {stack : List Ty} {ty : Ty} {post : Unit → Layouts → Prop}
    {stop : Stop IrError → Layouts → Prop} (hgeneric : ty.isGeneric = true → post () l)
    (hdone : ty ∈ l.done → post () l)
    (hcycle : ty.isGeneric = false → ty ∈ stack → stop (.failed (.recursiveLayout
      (stack.dropWhile (fun t => decide (t ≠ ty)) ++ [ty]))) l)
    (herror : ∀ e, p.construct ty = .error e →
      stop (.failed e) { l with journal := l.journal.afterConstruct p ty })
    (hnew : ∀ i, ty.isGeneric = false → ty ∉ stack → p.construct ty = .ok i →
      Walk.Ends (do
        visitEach (visit p depth (stack ++ [ty])) i.members
        modify fun l => { l with done := ty :: l.done })
        { l with journal := l.journal.afterConstruct p ty } post stop) :
    (visit p (depth + 1) stack ty).Ends l post stop := by
  by_cases hg : ty.isGeneric = true
  · exact Walk.Ends.ok (outcome_visit_generic hg) (hgeneric hg)
  have hconcrete : ty.isGeneric = false := Bool.eq_false_iff.mpr hg
  by_cases hd : ty ∈ l.done
  · exact Walk.Ends.ok (outcome_visit_done hd) (hdone hd)
  by_cases hs : ty ∈ stack
  · exact Walk.Ends.error (outcome_visit_cycle hconcrete hd hs) (hcycle hconcrete hs)
  cases hc : p.construct ty with
  | error e => exact Walk.Ends.error (outcome_visit_error hconcrete hd hs hc) (herror e hc)
  | ok i =>
    exact Walk.Ends.congr (outcome_visit_new hconcrete hd hs hc) (hnew i hconcrete hs hc)

/-- The walk ends with laid out types and `post`, or reports something other than a call. -/
def Walks (p : Program) (w : M Unit) (l : Layouts) (post : Prop) : Prop :=
  w.Ends l (fun _ t => t.Sound p ∧ post) fun e _ => Reports e

theorem walks_visitEach {visit : Ty → M Unit} {tys : List Ty} (hl : l.Sound p)
    (hv : ∀ ty ∈ tys, ∀ l, Sound p l →
      Walks p (visit ty) l (ty.isGeneric = false → p.LaidOut ty)) :
    Walks p (visitEach visit tys) l (∀ ty ∈ tys, ty.isGeneric = false → p.LaidOut ty) := by
  induction tys generalizing l with
  | nil => exact ⟨hl, by simp⟩
  | cons ty rest ih =>
    have hhead := hv ty List.mem_cons_self l hl
    refine Walk.Ends.andThen hhead ?_
    rintro _ t ⟨ht, hty⟩
    have htail := ih ht fun ty' hty' => hv ty' (List.mem_cons_of_mem _ hty')
    refine Walk.Ends.mono htail ?_ fun _ _ he => he
    rintro _ u ⟨hu, hrest⟩
    exact ⟨hu, List.forall_mem_cons.mpr ⟨hty, hrest⟩⟩

theorem walks_visit (depth : Nat) (stack : List Ty) (hl : l.Sound p) (ty : Ty) :
    Walks p (visit p depth stack ty) l (ty.isGeneric = false → p.LaidOut ty) := by
  induction depth generalizing stack l ty with
  | zero =>
    intro chain he
    cases he
  | succ depth ih =>
    refine ends_visit ?_ (fun hd => ⟨hl, fun _ => hl ty hd⟩) (fun _ _ _ he => by cases he) ?_ ?_
    · exact fun hg => ⟨hl, fun hconcrete => by simp [hconcrete] at hg⟩
    · intro e hc chain he
      cases he
      have hrecursion := Program.construct_error hc
      cases hrecursion
    · intro i _ _ hc
      have hvisit : ∀ member ∈ i.members, ∀ l, Sound p l →
          Walks p (visit p depth (stack ++ [ty]) member) l
            (member.isGeneric = false → p.LaidOut member) :=
        fun member _ _ hl' => ih (stack ++ [ty]) hl' member
      refine Walk.Ends.andThen (walks_visitEach hl hvisit) ?_
      rintro _ t ⟨ht, hmembers⟩
      have hlaid : p.LaidOut ty := .intro hc hmembers
      exact ⟨List.forall_mem_cons.mpr ⟨hlaid, ht⟩, fun _ => hlaid⟩

/-- The walk does not go too deep. -/
def Stays (w : M Unit) (l : Layouts) : Prop :=
  w.Ends l (fun _ _ => True) fun e _ => e ≠ .tooDeep

theorem stays_visitEach {visit : Ty → M Unit} {tys : List Ty}
    (hv : ∀ ty ∈ tys, ∀ l, Stays (visit ty) l) : Stays (visitEach visit tys) l := by
  induction tys generalizing l with
  | nil => trivial
  | cons ty rest ih =>
    refine Walk.Ends.andThen (hv ty List.mem_cons_self l) fun _ t _ => ?_
    exact ih fun ty' hty' => hv ty' (List.mem_cons_of_mem _ hty')

/-- Types under construction are distinct, so there are never more of them than there are types
in a list that is closed under members. -/
theorem stays_visit {all : List Ty} (hall : ∀ t ∈ all, ∀ member, p.Member t member → member ∈ all)
    (depth : Nat) {stack : List Ty} (hnodup : stack.Nodup) (hsub : stack ⊆ all)
    (hdepth : all.length < depth + stack.length) {ty : Ty}
    (hty : ty.isGeneric = false → ty ∈ all) : Stays (visit p depth stack ty) l := by
  induction depth generalizing stack ty l with
  | zero =>
    have hlength := (List.subperm_of_subset hnodup hsub).length_le
    omega
  | succ depth ih =>
    refine ends_visit (fun _ => trivial) (fun _ => trivial) (fun _ _ he => by cases he)
      (fun _ _ he => by cases he) ?_
    intro i hconcrete hs hc
    have hnodup' : (stack ++ [ty]).Nodup := by
      rw [← List.concat_eq_append]
      exact hnodup.concat hs
    have hsub' : stack ++ [ty] ⊆ all := by
      intro t ht
      rcases List.mem_append.mp ht with ht | ht
      · exact hsub ht
      · exact List.mem_singleton.mp ht ▸ hty hconcrete
    have hdepth' : all.length < depth + (stack ++ [ty]).length := by
      simp only [List.length_append, List.length_singleton]
      omega
    refine Walk.Ends.andThen (stays_visitEach fun member hmember l' => ?_) fun _ _ _ => trivial
    exact ih hnodup' hsub' hdepth' fun hm => hall ty (hty hconcrete) member ⟨i, hc, hmember, hm⟩

end Layouts

end ShaderIR
