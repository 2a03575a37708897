import Mathlib.Data.Set.Card
import ShaderIR.Proofs.ValidationPhases

/-! When the check of the layouts comes to an end. It goes through distinct types, so it ends where
these are finitely many, and it need not end elsewhere. -/

namespace ShaderIR

namespace Program

variable {p : Program} {depth : Nat} {j : Journal} {g : CallGraph}

/-- The types that are to be laid out and all that they contain by value. -/
def contained (p : Program) (g : CallGraph) : Set Ty :=
  {ty | ∃ root ∈ p.layoutRoots g, Relation.ReflTransGen p.Member root ty}

theorem layoutPhase_stays (hfinite : (p.contained g).Finite)
    (hdepth : (p.contained g).ncard < depth) : (p.layoutPhase depth g).1 ≠ .error .tooDeep := by
  let all := hfinite.toFinset.toList
  have hmem : ∀ ty, ty ∈ all ↔ ty ∈ p.contained g := by
    intro ty
    simp [all]
  have hlength : all.length < depth := by
    rw [Set.ncard_eq_toFinset_card _ hfinite] at hdepth
    simpa [all] using hdepth
  have hclosed : ∀ t ∈ all, ∀ member, p.Member t member → member ∈ all := by
    intro t ht member hm
    obtain ⟨root, hroot, hpath⟩ := (hmem t).mp ht
    exact (hmem member).mpr ⟨root, hroot, hpath.tail hm⟩
  have hstays : Layouts.Stays (Layouts.visitEach (Layouts.visit p depth []) (p.layoutRoots g))
      { journal := g.journal } := by
    refine Layouts.stays_visitEach fun ty hty l => ?_
    exact Layouts.stays_visit hclosed depth List.nodup_nil (List.nil_subset all) (by simpa)
      fun _ => (hmem ty).mpr ⟨ty, hty, .refl⟩
  intro he
  exact Walk.Ends.of_error hstays he rfl

/-- Where finitely many types are to be gone through, the check of the layouts ends, and it ends
with an error if a chain of members goes on forever. -/
theorem validateWithin_layouts (hcalls : p.callPhase depth j = (.ok (), g))
    (hfinite : (p.contained g).Finite) (hdepth : (p.contained g).ncard < depth) :
    ((p.validateWithin depth).outcome j).1 ≠ .error .tooDeep ∧
      ∀ chain : Nat → Ty, chain 0 ∈ p.layoutRoots g → (chain 0).isGeneric = false →
        (∀ n, p.Member (chain n) (chain (n + 1))) →
        ∃ e, ((p.validateWithin depth).outcome j).1 = .error (.failed e) := by
  have hstays := layoutPhase_stays hfinite hdepth
  rw [outcome_validateWithin, hcalls]
  dsimp only
  refine ⟨hstays, fun chain hroot hg hchain => ?_⟩
  cases ho : (p.layoutPhase depth g).1 with
  | ok u => exact ((layoutPhase_laidOut ho hroot hg).not_chain rfl hchain).elim
  | error e =>
    cases e with
    | failed e => exact ⟨e, rfl⟩
    | tooDeep => exact absurd ho hstays

namespace Knot

def knot : Ty := .named "Knot" []

/-- A program whose only type contains itself. -/
def program : Program where
  name := "knot"
  types := [{ fullName := "Knot", fields := [⟨"self", knot⟩] }]

theorem member_iff {ty : Ty} : program.Member knot ty ↔ ty = knot := by
  have hc : program.construct knot = .ok ⟨knot, [], [⟨"self", knot⟩], [], .empty⟩ := rfl
  constructor
  · rintro ⟨i, hi, hm, _⟩
    rw [hc] at hi
    cases hi
    simpa [TypeInstance.members, TypeInstance.representation?] using hm
  · rintro rfl
    exact ⟨_, hc, by simp [TypeInstance.members], rfl⟩

end Knot

theorem validateWithin_layouts_knot :
    ((Knot.program.validateWithin depthLimit).outcome {}).1 ≠ .error .tooDeep ∧
      ∃ e, ((Knot.program.validateWithin depthLimit).outcome {}).1 = .error (.failed e) := by
  have hcalls : Knot.program.callPhase depthLimit {} = (.ok (), { journal := {} }) := rfl
  have hroots : Knot.program.layoutRoots { journal := {} } = [Knot.knot] := rfl
  have hset : Knot.program.contained { journal := {} } = {Knot.knot} := by
    ext ty
    simp only [contained, hroots, List.mem_singleton, exists_eq_left, Set.mem_ofPred_eq,
      Set.mem_singleton_iff]
    constructor
    · intro h
      induction h with
      | refl => rfl
      | tail _ hm ih =>
        subst ih
        exact Knot.member_iff.mp hm
    · rintro rfl
      exact .refl
  have h := validateWithin_layouts hcalls (hset ▸ Set.finite_singleton _)
    (by rw [hset, Set.ncard_singleton]; decide)
  exact ⟨h.1, h.2 (fun _ => Knot.knot) (by simp [hroots]) rfl fun _ => Knot.member_iff.mpr rfl⟩

namespace Coil

def unit : Ty := .named "Unit" []

/-- Arguments that double in size. -/
def argument : Nat → Ty
  | 0 => unit
  | n + 1 => .named "Pair" [argument n, argument n]

def node (n : Nat) : Ty := .named "Node" [argument n]

def root : Ty := .named "Root" []

/-- A program in which each node contains a node of a larger argument. -/
def program : Program where
  name := "coil"
  types :=
    [{ fullName := "Unit" }, { fullName := "Pair", genericParameters := [⟨"A", []⟩, ⟨"B", []⟩] },
      { fullName := "Node", genericParameters := [⟨"T", []⟩]
        fields := [⟨"next", .named "Node" [.named "Pair" [.param "T" [], .param "T" []]]⟩] },
      { fullName := "Root", fields := [⟨"node", node 0⟩] }]

theorem isGeneric_argument (n : Nat) : (argument n).isGeneric = false := by
  induction n with
  | zero => rfl
  | succ n ih => simp [argument, Ty.isGeneric, Ty.anyGeneric, ih]

theorem isGeneric_node (n : Nat) : (node n).isGeneric = false := by
  simp [node, Ty.isGeneric, Ty.anyGeneric, isGeneric_argument]

theorem argument_injective {m n : Nat} (h : argument m = argument n) : m = n := by
  induction m generalizing n with
  | zero =>
    cases n with
    | zero => rfl
    | succ n => simp [argument, unit] at h
  | succ m ih =>
    cases n with
    | zero => simp [argument, unit] at h
    | succ n =>
      have hm : argument m = argument n := by simpa [argument] using h
      rw [ih hm]

theorem node_injective {m n : Nat} (h : node m = node n) : m = n := by
  refine argument_injective ?_
  simpa [node] using h

theorem construct_node (n : Nat) :
    ∃ i, program.construct (node n) = .ok i ∧ i.members = [node (n + 1)] :=
  ⟨_, rfl, rfl⟩

theorem outcome_visit_node (depth n : Nat) {stack : List Ty} {l : Layouts}
    (hs : ∀ k, n ≤ k → node k ∉ stack) (hd : ∀ k, node k ∉ l.done) :
    ((Layouts.visit program depth stack (node n)).outcome l).1 = .error .tooDeep := by
  induction depth generalizing n stack l with
  | zero => rfl
  | succ depth ih =>
    obtain ⟨i, hc, hm⟩ := construct_node n
    have hs' : ∀ k, n + 1 ≤ k → node k ∉ stack ++ [node n] := by
      intro k hk hmem
      rcases List.mem_append.mp hmem with hmem | hmem
      · exact hs k (by omega) hmem
      · have hkn := node_injective (List.mem_singleton.mp hmem)
        omega
    rw [Layouts.outcome_visit_new (isGeneric_node n) (hd n) (hs n le_rfl) hc, hm]
    let l' : Layouts := { l with journal := l.journal.afterConstruct program (node n) }
    have hnext := ih (n + 1) hs' (l := l') hd
    exact Walk.outcome_bind_error (Walk.outcome_bind_error hnext)

/-- The nodes are never left. -/
theorem layoutPhase_eq (depth : Nat) (j : Journal) :
    (program.layoutPhase depth { journal := j }).1 = .error .tooDeep := by
  cases depth with
  | zero => rfl
  | succ depth =>
    let l : Layouts := { journal := j, done := [unit] }
    have hunit : (Layouts.visit program (depth + 1) [] unit).outcome { journal := j } =
        (.ok (), l) := rfl
    have hroot : ((Layouts.visit program (depth + 1) [] root).outcome l).1 = .error .tooDeep := by
      obtain ⟨i, hc, hm⟩ : ∃ i, program.construct root = .ok i ∧ i.members = [node 0] :=
        ⟨_, rfl, rfl⟩
      rw [Layouts.outcome_visit_new rfl (by simp [l, root, unit]) (by simp) hc, hm]
      refine Walk.outcome_bind_error (Walk.outcome_bind_error (outcome_visit_node depth 0 ?_ ?_))
      · intro k _
        simp [node, root]
      · intro k
        simp [l, node, unit]
    change (Walk.outcome (do
      Layouts.visit program (depth + 1) [] unit
      Layouts.visitEach (Layouts.visit program (depth + 1) []) [root]) { journal := j }).1 = _
    rw [Walk.outcome_bind, hunit]
    exact Walk.outcome_bind_error hroot

end Coil

theorem validateWithin_coil :
    Coil.program.Distinct ∧
      (∃ chain : Nat → Ty, chain 0 ∈ Coil.program.layoutRoots { journal := {} } ∧
        (chain 0).isGeneric = false ∧ ∀ n, Coil.program.Member (chain n) (chain (n + 1))) ∧
      ∀ depth, ((Coil.program.validateWithin depth).outcome {}).1 = .error .tooDeep := by
  have hnames : ["Unit", "Pair", "Node", "Root"].Nodup := by decide
  refine ⟨hnames, ⟨fun n => Nat.casesOn n Coil.root Coil.node, ?_, rfl, ?_⟩, fun depth => ?_⟩
  · have hroots : Coil.program.layoutRoots { journal := {} } = [Coil.unit, Coil.root] := rfl
    simp [hroots]
  · intro n
    cases n with
    | zero => exact ⟨_, rfl, List.mem_singleton_self _, rfl⟩
    | succ n =>
      obtain ⟨i, hc, hm⟩ := Coil.construct_node n
      exact ⟨i, hc, by simp [hm], Coil.isGeneric_node (n + 1)⟩
  · have hcalls : Coil.program.callPhase depth {} = (.ok (), { journal := {} }) := rfl
    rw [outcome_validateWithin, hcalls]
    exact Coil.layoutPhase_eq depth {}

end Program

end ShaderIR
