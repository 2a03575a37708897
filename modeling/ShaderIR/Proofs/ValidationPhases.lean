import ShaderIR.Proofs.ByValueLayout
import ShaderIR.Validation

/-! The two phases of validation, and what they guarantee of the calls of a program and of the
layouts of its types. -/

namespace ShaderIR

namespace Program

variable {p : Program} {depth : Nat} {j : Journal} {g : CallGraph}

/-- The declared types that are not generic. -/
def ownTypes (p : Program) : List Ty :=
  (p.types.filter fun d => !d.isGeneric).map TypeDecl.selfTy

/-- The types whose layouts are checked once the calls are. -/
def layoutRoots (p : Program) (g : CallGraph) : List Ty :=
  p.ownTypes ++ g.types.toList

/-- The check of the calls. -/
def callPhase (p : Program) (depth : Nat) (j : Journal) :
    Except (Stop IrError) Unit × CallGraph :=
  (CallGraph.visitAll p depth p.methods).outcome { journal := j }

/-- The check of the layouts that follows it. -/
def layoutPhase (p : Program) (depth : Nat) (g : CallGraph) :
    Except (Stop IrError) Unit × Layouts :=
  (Layouts.visitEach (Layouts.visit p depth []) (p.layoutRoots g)).outcome
    { journal := g.journal }

theorem outcome_validateWithin (p : Program) (depth : Nat) (j : Journal) :
    ((p.validateWithin depth).outcome j).1 =
      match p.callPhase depth j with
      | (.error e, _) => .error e
      | (.ok (), g) => (p.layoutPhase depth g).1 := by
  unfold validateWithin callPhase
  rw [Walk.outcome_bind, Walk.outcome_get]
  dsimp only
  rcases (CallGraph.visitAll p depth p.methods).outcome { journal := j } with ⟨e | u, g⟩
  · rfl
  · change (Walk.outcome (do
      set (p.layoutPhase depth g).2.journal
      let () ← ofExcept (p.layoutPhase depth g).1 : Walk Journal IrError Unit) g.journal).1 =
        (p.layoutPhase depth g).1
    rcases p.layoutPhase depth g with ⟨e | u, l⟩ <;> rfl

theorem callPhase_complete (hp : p.Distinct) (h : p.callPhase depth j = (.ok (), g)) :
    g.Complete p := by
  have hwalks := CallGraph.walks_visitAll hp (CallGraph.settled_empty p j) depth
    (List.Subset.refl p.methods)
  obtain ⟨hg, _, hdone⟩ := Walk.Ends.of_ok hwalks h
  exact ⟨hg, hdone⟩

theorem callPhase_cycle (hp : p.Distinct) {chain : List String}
    (h : (p.callPhase depth j).1 = .error (.failed (.recursiveCall chain))) :
    p.CallCycle chain := by
  have hwalks := CallGraph.walks_visitAll hp (CallGraph.settled_empty p j) depth
    (List.Subset.refl p.methods)
  exact Walk.Ends.of_error hwalks h chain rfl

theorem layoutPhase_walks (p : Program) (depth : Nat) (g : CallGraph) :
    Layouts.Walks p (Layouts.visitEach (Layouts.visit p depth []) (p.layoutRoots g))
      { journal := g.journal }
      (∀ ty ∈ p.layoutRoots g, ty.isGeneric = false → p.LaidOut ty) :=
  Layouts.walks_visitEach (by simp [Layouts.Sound])
    fun ty _ _ hl => Layouts.walks_visit depth [] hl ty

theorem layoutPhase_laidOut (h : (p.layoutPhase depth g).1 = .ok ()) {ty : Ty}
    (hty : ty ∈ p.layoutRoots g) (hg : ty.isGeneric = false) : p.LaidOut ty := by
  have hwalks := layoutPhase_walks p depth g
  rcases ho : p.layoutPhase depth g with ⟨e | u, l⟩
  · rw [ho] at h
    cases h
  · exact (Walk.Ends.of_ok hwalks ho).2 ty hty hg

theorem layoutPhase_ne_recursiveCall (chain : List String) :
    (p.layoutPhase depth g).1 ≠ .error (.failed (.recursiveCall chain)) := by
  intro h
  exact Walk.Ends.of_error (layoutPhase_walks p depth g) h chain rfl

theorem phases_of_ok (h : ((p.validateWithin depth).outcome j).1 = .ok ()) :
    ∃ g, p.callPhase depth j = (.ok (), g) ∧ (p.layoutPhase depth g).1 = .ok () := by
  rw [outcome_validateWithin] at h
  rcases hc : p.callPhase depth j with ⟨e | u, g⟩
  · rw [hc] at h
    cases h
  · rw [hc] at h
    exact ⟨g, rfl, h⟩

theorem definition?_congr {id id' : MethodId} (h : id.definition = id'.definition) :
    p.definition? id = p.definition? id' := by
  obtain ⟨hsite, hindex⟩ := Prod.mk.inj h
  simp only [definition?, hsite, hindex]

/-- A program that passes validation calls finitely many instances and none of them in a cycle. A
program that is refused for recursion has the path of calls that the refusal spells out. -/
theorem validateWithin_calls (hp : p.Distinct) (depth : Nat) (j : Journal) :
    (((p.validateWithin depth).outcome j).1 = .ok () →
      {m | p.Reached m}.Finite ∧ ∀ m, p.Reached m → ¬ Relation.TransGen p.Calls m m) ∧
    ∀ chain, ((p.validateWithin depth).outcome j).1 = .error (.failed (.recursiveCall chain)) →
      ∃ first middle last declared, p.Reached first ∧
        (first :: middle ++ [last]).IsChain p.Calls ∧
        p.definition? first.id = some declared ∧ p.definition? last.id = some declared ∧
        chain = (first :: middle ++ [last]).map LocatedMethod.fullName := by
  constructor
  · intro h
    obtain ⟨g, hc, _⟩ := phases_of_ok h
    have hg := callPhase_complete hp hc
    exact ⟨hg.finite_reached hp, fun m hm => hg.not_transGen hp hm⟩
  · intro chain h
    rw [outcome_validateWithin] at h
    have hcycle : p.CallCycle chain := by
      rcases hc : p.callPhase depth j with ⟨e | u, g⟩
      · have hphase : (p.callPhase depth j).1 = .error (.failed (.recursiveCall chain)) := by
          rw [hc] at h ⊢
          exact h
        exact callPhase_cycle hp hphase
      · rw [hc] at h
        exact absurd h (layoutPhase_ne_recursiveCall chain)
    obtain ⟨first, middle, last, hfirst, hpath, hsame, hnames⟩ := hcycle
    obtain ⟨declared, hdeclared⟩ := (hfirst.locates hp).definition
    have hlast : p.definition? last.id = some declared := by
      rw [← hdeclared]
      exact definition?_congr hsame.symm
    exact ⟨first, middle, last, declared, hfirst, hpath, hdeclared, hlast, hnames⟩

namespace Spiral

def shader : Ty := .named "Shader" []

def unit : Ty := .named "Unit" []

def turn (body : List Instruction) : Method where
  owner := shader
  name := "turn"
  attributes := [.static]
  genericParameters := [⟨"T", []⟩]
  body := body

def main : Method where
  owner := shader
  name := "main"
  attributes := [.static]
  body := [.mk .call [.method ⟨shader, 0, "turn", [unit]⟩, .void]]

/-- A program whose generic method has the given body. -/
def program (body : List Instruction) : Program where
  name := "spiral"
  types :=
    [{ fullName := "Unit" }, { fullName := "Box", genericParameters := [⟨"T", []⟩] },
      { fullName := "Shader", methods := [turn body, main] }]

/-- The call of the next larger instance. -/
def outwards : Instruction :=
  .mk .call [.method ⟨shader, 0, "turn", [.named "Box" [.param "T" []]]⟩, .void]

end Spiral

theorem validateWithin_calls_spiral :
    ((((Spiral.program []).validateWithin depthLimit).outcome {}).1 = .ok () ∧
      {m | (Spiral.program []).Reached m}.Finite ∧
      ∀ m, (Spiral.program []).Reached m →
        ¬ Relation.TransGen (Spiral.program []).Calls m m) ∧
    (((Spiral.program [Spiral.outwards]).validateWithin depthLimit).outcome {}).1 =
        .error (.failed (.recursiveCall ["Shader::turn", "Shader::turn"])) ∧
      ∃ first middle last declared, (Spiral.program [Spiral.outwards]).Reached first ∧
        (first :: middle ++ [last]).IsChain (Spiral.program [Spiral.outwards]).Calls ∧
        (Spiral.program [Spiral.outwards]).definition? first.id = some declared ∧
        (Spiral.program [Spiral.outwards]).definition? last.id = some declared ∧
        ["Shader::turn", "Shader::turn"] =
          (first :: middle ++ [last]).map LocatedMethod.fullName := by
  have hok : (((Spiral.program []).validateWithin depthLimit).outcome {}).1 = .ok () := by
    decide +kernel
  have herror : (((Spiral.program [Spiral.outwards]).validateWithin depthLimit).outcome {}).1 =
      .error (.failed (.recursiveCall ["Shader::turn", "Shader::turn"])) := by
    decide +kernel
  have hdistinct : ∀ body, (Spiral.program body).Distinct := by
    intro body
    have hnames : ["Unit", "Box", "Shader"].Nodup := by decide
    exact hnames
  exact ⟨⟨hok, (validateWithin_calls (hdistinct _) depthLimit {}).1 hok⟩, herror,
    (validateWithin_calls (hdistinct _) depthLimit {}).2 _ herror⟩

end Program

end ShaderIR
