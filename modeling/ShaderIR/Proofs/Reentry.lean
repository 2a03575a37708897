import ShaderIR.Proofs.OpenCells
import ShaderIR.Proofs.ValidationPhases

/-! Cyclic construction. Validation looks at the types that methods mention but not at their
receivers, so it rules cycles out only where the receivers have none. -/

namespace ShaderIR

/-- No type that the type contains by value contains itself. -/
def Program.Acyclic (p : Program) (ty : Ty) : Prop :=
  ∀ inner, Relation.ReflTransGen p.Member ty inner → ¬ Relation.TransGen p.Member inner inner

namespace Program

variable {p : Program}

theorem Acyclic.member {ty member : Ty} (h : p.Acyclic ty) (hm : p.Member ty member) :
    p.Acyclic member :=
  fun inner hinner => h inner (.head hm hinner)

theorem LaidOut.acyclic {ty : Ty} (h : p.LaidOut ty) : p.Acyclic ty := by
  intro inner hinner
  have hlaid : p.LaidOut inner := by
    induction hinner with
    | refl => exact h
    | tail _ hm ih => exact ih.member hm
  exact hlaid.not_transGen

end Program

namespace Lowering

variable {p : Program}

/-- Validation sees the declared types and what the methods mention. The other receivers are left
to the hypothesis. -/
theorem admits_validated (hp : p.Distinct) {depth : Nat}
    (hreceivers : ∀ m, p.Reached m → m.method.isStatic = false → m.method.owner ∉ p.ownTypes →
      p.Acyclic m.method.owner)
    (hvalid : ∃ j, ((p.validateWithin depth).outcome j).1 = .ok ()) :
    Admits p p.Acyclic (· ≠ .failed .cyclic) := by
  obtain ⟨j, hj⟩ := hvalid
  obtain ⟨g, hcalls, hlayouts⟩ := Program.phases_of_ok hj
  have hg := Program.callPhase_complete hp hcalls
  have hroot : ∀ {ty : Ty}, ty ∈ p.layoutRoots g → ty.isGeneric = false → p.Acyclic ty :=
    fun hty hc => (Program.layoutPhase_laidOut hlayouts hty hc).acyclic
  refine ⟨fun he => he, fun hty hm => hty.member hm, ?_, ?_, ?_⟩
  · rintro m ty hm (hty | ⟨hstatic, rfl⟩) hconcrete
    · exact hroot (List.mem_append_right _ (hg.types hp hm hty)) hconcrete
    · by_cases hown : m.method.owner ∈ p.ownTypes
      · exact hroot (List.mem_append_left _ hown) hconcrete
      · exact hreceivers m hm hstatic hown
  · intro ty hty hcycle
    exact absurd hcycle (hty ty .refl)
  · intro m hm hcycle
    exact absurd hcycle (hg.not_transGen hp hm)

/-- Compilation does not enter a cell under construction, and the types that it lowers have
acyclic layouts, if the receivers other than the declared types have. -/
theorem compile_not_cyclic (hp : p.Distinct)
    (hreceivers : ∀ m, p.Reached m → m.method.isStatic = false → m.method.owner ∉ p.ownTypes →
      p.Acyclic m.method.owner)
    (options : Options) :
    ((compile p options).outcome {}).1 ≠ .error (.failed .cyclic) ∧
      ∀ ty t, ((compile p options).outcome {}).2.types.get? ty = some t → p.Acyclic ty := by
  have hends := ends_compileWithin hp depthLimit options (fun he => he)
    (admits_validated hp hreceivers) (Session.rests_empty p p.Acyclic)
  constructor
  · intro he
    exact (Walk.Ends.of_error hends he).2 rfl
  · have hlast := Walk.Ends.last hends (fun _ _ h => h.1) fun _ _ h => h.1
    exact hlast.lowered

namespace Crate

def float : Ty := .named "Float" []

def shader : Ty := .named "Shader" []

def crate (ty : Ty) : Ty := .named "Crate" [ty]

def parameter : GenericParam := ⟨"T", []⟩

def touch : Method where
  owner := crate parameter.ty
  name := "touch"

def main (body : List Instruction) : Method where
  owner := shader
  name := "main"
  attributes := [.static]
  body := body

/-- A program whose generic type has the given content. -/
def program (content : Ty) (body : List Instruction) : Program where
  name := "crate"
  types :=
    [{ fullName := "Float", attributes := [.representation (some "OpTypeFloat 32")] },
      { fullName := "Crate", genericParameters := [parameter], fields := [⟨"content", content⟩]
        methods := [touch] },
      { fullName := "Shader", methods := [main body] }]

def call (receiver : List Operand) : Instruction :=
  .mk .call (.method ⟨crate float, 0, "touch", []⟩ :: .void :: receiver)

/-- Calls the method on a variable. -/
def body : List Instruction :=
  [.define (crate float), call [.variable 0]]

theorem distinct (content : Ty) (body : List Instruction) : (program content body).Distinct := by
  have hnames : ["Float", "Crate", "Shader"].Nodup := by decide
  exact hnames

/-- A crate contains its argument and nothing else contains anything. -/
theorem member_lt {ty member : Ty} (h : (program parameter.ty body).Member ty member) :
    sizeOf member < sizeOf ty := by
  obtain ⟨i, hc, hm, _⟩ := h
  cases ty with
  | param => cases hc
  | named name arguments =>
    have hname : name = "Crate" ∨ name = "Float" ∨ name = "Shader" := by
      by_contra hn
      obtain ⟨hcrate, hfloat, hshader⟩ : "Crate" ≠ name ∧ "Float" ≠ name ∧ "Shader" ≠ name := by
        simpa [eq_comm] using hn
      simp [Program.construct, Program.find?_eq, Program.findLocal?, Program.findAmong?, program,
        hcrate, hfloat, hshader] at hc
    rcases hname with rfl | rfl | rfl
    · rcases arguments with _ | ⟨argument, _ | ⟨other, rest⟩⟩
      · cases hc
      · obtain ⟨i', hc', hm'⟩ : ∃ i', (program parameter.ty body).construct (crate argument) =
            .ok i' ∧ i'.members = [argument] := ⟨_, rfl, rfl⟩
        rw [crate, hc] at hc'
        cases hc'
        rw [hm', List.mem_singleton] at hm
        subst hm
        simp only [Ty.named.sizeOf_spec, List.cons.sizeOf_spec]
        omega
      · cases hc
    all_goals
      cases arguments with
      | nil =>
        cases hc
        cases hm
      | cons => cases hc

theorem acyclic (ty : Ty) : (program parameter.ty body).Acyclic ty := by
  have hlt : ∀ {a b}, Relation.TransGen (program parameter.ty body).Member a b →
      sizeOf b < sizeOf a := by
    intro a b h
    induction h with
    | single hm => exact member_lt hm
    | tail _ hm ih => exact (member_lt hm).trans ih
  intro inner _ hcycle
  exact (hlt hcycle).false

end Crate

theorem compile_not_cyclic_crate :
    ((compile (Crate.program Crate.parameter.ty Crate.body) {}).outcome {}).1 ≠
        .error (.failed .cyclic) ∧
      (((compile (Crate.program Crate.parameter.ty Crate.body) {}).outcome {}).2.types.get?
        (Crate.crate Crate.float)).isSome = true ∧
      (Crate.program Crate.parameter.ty Crate.body).Acyclic (Crate.crate Crate.float) := by
  obtain ⟨hresult, htypes⟩ := compile_not_cyclic (Crate.distinct _ _)
    (fun m _ _ _ => Crate.acyclic m.method.owner) {}
  have hsome : (((compile (Crate.program Crate.parameter.ty Crate.body) {}).outcome {}).2.types.get?
      (Crate.crate Crate.float)).isSome = true := by decide +kernel
  obtain ⟨t, ht⟩ := Option.isSome_iff_exists.mp hsome
  exact ⟨hresult, hsome, htypes _ t ht⟩

/-- A receiver that contains itself passes validation and stops compilation. -/
theorem compile_cyclic_crate :
    (Crate.program (Crate.crate Crate.parameter.ty) [Crate.call []]).Distinct ∧
      (((Crate.program (Crate.crate Crate.parameter.ty) [Crate.call []]).validateWithin
        depthLimit).outcome {}).1 = .ok () ∧
      ((compile (Crate.program (Crate.crate Crate.parameter.ty) [Crate.call []]) {}).outcome {}).1 =
        .error (.failed .cyclic) := by
  refine ⟨Crate.distinct _ _, by decide +kernel, ?_⟩
  have herror : ((compile (Crate.program (Crate.crate Crate.parameter.ty) [Crate.call []])
      {}).outcome {}).1.map (fun _ => ()) = .error (.failed .cyclic) := by decide +kernel
  rcases h : ((compile (Crate.program (Crate.crate Crate.parameter.ty) [Crate.call []])
      {}).outcome {}).1 with e | m
  · rw [h] at herror
    cases herror
    rfl
  · rw [h] at herror
    cases herror

end Lowering

end ShaderIR
