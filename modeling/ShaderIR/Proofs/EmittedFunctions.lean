import ShaderIR.Proofs.InstanceIdentity
import ShaderIR.Proofs.ModuleIds
import ShaderIR.Proofs.ObjectPass
import ShaderIR.Proofs.ObjectRoutes
import ShaderIR.Proofs.OpenCells

/-! The functions of a module. A compiled module holds a function for each concrete method that the
declared ones reach through calls, and no other. Functions are kept by the objects of methods, and
whatever calls lead to a method, they lead to one object. -/

namespace ShaderIR.Lowering

open Binary (Op Inst Image)

/-- The function bodies of code of which `current` is the body that has been begun, if any. -/
def functionBodiesFrom : Option (List Inst) → List Inst → List (List Inst)
  | _, [] => []
  | none, i :: rest =>
    if i.op = .function then functionBodiesFrom (some [i]) rest else functionBodiesFrom none rest
  | some current, i :: rest =>
    if i.op = .functionEnd then (current ++ [i]) :: functionBodiesFrom none rest
    else functionBodiesFrom (some (current ++ [i])) rest

/-- The function bodies of a module, each from its function instruction to the next end. -/
def functionBodies (code : List Inst) : List (List Inst) :=
  functionBodiesFrom none code

theorem functionBodies_append {pre : List Inst} (h : ∀ i ∈ pre, i.op ≠ .function)
    (rest : List Inst) : functionBodies (pre ++ rest) = functionBodies rest := by
  induction pre with
  | nil => rfl
  | cons i pre ih =>
    have hi := h i List.mem_cons_self
    have hpre := ih fun j hj => h j (List.mem_cons_of_mem _ hj)
    simpa [functionBodies, functionBodiesFrom, hi] using hpre

theorem functionBodiesFrom_some {inner : List Inst} (h : ∀ i ∈ inner, i.op ≠ .functionEnd)
    (current rest : List Inst) :
    functionBodiesFrom (some current) (inner ++ ⟨.functionEnd, []⟩ :: rest) =
      (current ++ inner ++ [⟨.functionEnd, []⟩]) :: functionBodies rest := by
  induction inner generalizing current with
  | nil => simp [functionBodiesFrom, functionBodies]
  | cons i inner ih =>
    have hi := h i List.mem_cons_self
    have hinner := ih (fun j hj => h j (List.mem_cons_of_mem _ hj)) (current ++ [i])
    simpa [functionBodiesFrom, hi] using hinner

theorem functionBodies_code {id : UInt32} {code : List Inst} (h : IsFunctionCode id code)
    (rest : List Inst) : functionBodies (code ++ rest) = code :: functionBodies rest := by
  obtain ⟨head, inner, rfl, hhead, _, hinner⟩ := h
  have hend : ∀ i ∈ inner, i.op ≠ .functionEnd := by
    intro i hi he
    have hop := hinner i hi
    rw [he] at hop
    cases hop
  have hbody := functionBodiesFrom_some hend [head] rest
  simpa [functionBodies, functionBodiesFrom, hhead] using hbody

theorem functionBodies_flatMap {fs : List Function}
    (h : ∀ f ∈ fs, IsFunctionCode f.id.val f.code) :
    functionBodies (fs.flatMap Function.code) = fs.map Function.code := by
  induction fs with
  | nil => rfl
  | cons f fs ih =>
    have hf := functionBodies_code (h f List.mem_cons_self) (fs.flatMap Function.code)
    have hfs := ih fun g hg => h g (List.mem_cons_of_mem _ hg)
    rw [List.flatMap_cons, hf, hfs, List.map_cons]

variable {p : Program} {known : LocatedMethod → Prop} {s : Session} {held : List UInt32}

theorem Session.Sound.functionBodies_sections (hs : s.Sound p known held) :
    functionBodies s.sections = s.functionList.map Function.code := by
  have hpreamble : ∀ i ∈ s.preamble, i.op ≠ .function := by
    intro i hi
    rcases hs.preamble_cases hi with rfl | rfl | ⟨f, _, ⟨words, rfl⟩ | ⟨x, y, z, rfl⟩⟩
    all_goals simp
  have hcode : ∀ i ∈ s.code, i.op ≠ .function := by
    intro i hi he
    have hop := hs.declarations.declares i hi
    rw [he] at hop
    cases hop
  have hfunctions : ∀ f ∈ s.functionList, IsFunctionCode f.id.val f.code := by
    intro f hf
    obtain ⟨_, _, _, _, hq⟩ := hs.built hf
    exact hq.isFunctionCode
  rw [s.sections_eq, functionBodies_append hpreamble, functionBodies_append hcode,
    functionBodies_flatMap hfunctions]

/-- A call that an instruction makes stands in its code. -/
theorem Translates.called {code out : List Inst} {earlier : List Function} {c : Scope}
    {i : Instruction} (h : Translates p code earlier c i out) {callee : LocatedMethod}
    (hc : p.CalledIn [i] callee) : ∃ f ∈ earlier, f.method.id = callee.id ∧
      ∃ j ∈ out, j.op = .functionCall ∧ j.operands[2]? = some f.id.val := by
  obtain ⟨j, hj, r, target, ho, hr, ht, hm⟩ := hc
  obtain rfl := List.mem_singleton.mp hj
  cases h with
  | @call _ _ _ f _ _ _ _ _ hr' ht' hm' hf hid =>
    rw [hr] at hr'
    cases hr'
    rw [ht] at ht'
    cases ht'
    rw [hm] at hm'
    cases hm'
    exact ⟨f, hf, hid, _, List.mem_append_right _ List.mem_cons_self, rfl, rfl⟩
  | binary _ _ _ _ _ _ hop => simp [arithmeticOp?, ho] at hop
  | @constant dst _ _ _ hi _ =>
    generalize dst.type.shape = shape at hi
    cases hi <;> simp_all
  | negate he | copy he | loadElement he | setElement he | loadField he | setField he =>
    simp [he] at ho

theorem TranslatesBody.called {code out : List Inst} {earlier : List Function} {c : Scope}
    {is : List Instruction} (h : TranslatesBody p code earlier c is out) {callee : LocatedMethod}
    (hc : p.CalledIn is callee) : ∃ f ∈ earlier, f.method.id = callee.id ∧
      ∃ j ∈ out, j.op = .functionCall ∧ j.operands[2]? = some f.id.val := by
  have hsplit : ∀ {i : Instruction} {rest : List Instruction}, p.CalledIn (i :: rest) callee →
      p.CalledIn [i] callee ∨ p.CalledIn rest callee := by
    rintro i rest ⟨j, hj, hcall⟩
    rcases List.mem_cons.mp hj with rfl | hj
    · exact .inl ⟨j, List.mem_singleton_self j, hcall⟩
    · exact .inr ⟨j, hj, hcall⟩
  have hplain : ∀ {i : Instruction}, i.opcode ≠ .call → ¬ p.CalledIn [i] callee := by
    rintro i hi ⟨j, hj, _, _, ho, _⟩
    obtain rfl := List.mem_singleton.mp hj
    exact hi ho
  induction h with
  | fallThrough =>
    obtain ⟨_, hj, _⟩ := hc
    cases hj
  | ret ho => exact absurd hc (hplain (by simp [ho]))
  | retValue ho => exact absurd hc (hplain (by simp [ho]))
  | define ho _ _ ih => exact ih ((hsplit hc).resolve_left (hplain (by simp [ho])))
  | plain hi _ ih =>
    rcases hsplit hc with hc | hc
    · obtain ⟨f, hf, hid, j, hj, hcall⟩ := hi.called hc
      exact ⟨f, hf, hid, j, List.mem_append_left _ hj, hcall⟩
    · obtain ⟨f, hf, hid, j, hj, hcall⟩ := ih hc
      exact ⟨f, hf, hid, j, List.mem_append_right _ hj, hcall⟩

/-- Every method that is needed has a function once the declared ones have. -/
theorem Session.Sound.exists_function (hs : s.Sound p p.Locates held) (hp : p.Distinct)
    (hdeclared : ∀ m ∈ p.methods, m.isConcrete = true → ∃ f ∈ s.functionList, f.method.id = m.id)
    {m : LocatedMethod} (hm : p.Reached m) : ∃ f ∈ s.functionList, f.method = m := by
  have hsame : ∀ {m : LocatedMethod}, p.Reached m →
      (∃ f ∈ s.functionList, f.method.id = m.id) → ∃ f ∈ s.functionList, f.method = m := by
    rintro m hm ⟨f, hf, hid⟩
    exact ⟨f, hf, (hs.known f hf).eq_of_id_eq (hm.locates hp) hid⟩
  induction hm with
  | declared hm hc => exact hsame (.declared hm hc) (hdeclared _ hm hc)
  | call hm hc ih =>
    obtain ⟨f, hf, rfl⟩ := ih
    obtain ⟨pre, post, q, hsplit, hq⟩ := hs.built hf
    obtain ⟨g, hg, hid, _⟩ := hq.body.called hc
    exact hsame (.call hm hc) ⟨g, by simp [hsplit, hg], hid⟩

theorem admits_all (p : Program) : Admits p (fun _ => True) fun _ => True :=
  ⟨fun _ => trivial, fun _ _ => trivial, fun _ _ _ => trivial, fun _ _ => trivial,
    fun _ _ => trivial⟩

/-- A fresh compilation that succeeds has built the functions of the methods that are reached. -/
theorem compile_functions (hp : p.Distinct) {options : Options} {m : CompiledModule}
    (h : (compile p options).outcome {} = (.ok m, s)) :
    s.Sound p p.Reached [] ∧ m.Shows s options ∧
      (∀ lm, p.Reached lm → ∃ f ∈ s.functionList, f.method = lm) ∧
      (s.functionList.map fun f => f.method.id).Nodup := by
  obtain ⟨_, hs, hshows, _⟩ := (lands_compile (Program.resolves_reached p)
    (fun _ hm hc => .declared hm hc) (Session.sound_empty p p.Reached) options).of_ok h
  obtain ⟨hlocates, _, hdeclared⟩ := compile_sound (Program.resolves_locates p)
    (Program.locates_methods hp) (Session.sound_empty p p.Locates) h
  have hends := ends_compileWithin hp depthLimit options (fun _ => trivial)
    (fun _ => admits_all p) (Session.rests_empty p fun _ => True)
  exact ⟨hs, hshows, fun _ hlm => hlocates.exists_function hp hdeclared hlm,
    (hends.of_ok h).1.distinct⟩

/-- The instructions of the module that a fresh session writes, if it writes one. -/
def freshCode? (p : Program) (options : Options) : Option (List Inst) := do
  let m ← ((compile p options).outcome {}).1.toOption
  let image ← Image.read? m.bytes
  return image.code

theorem exists_of_freshCode? {options : Options} {code : List Inst}
    (h : freshCode? p options = some code) :
    ∃ m s image, (compile p options).outcome {} = (.ok m, s) ∧ Image.read? m.bytes = some image ∧
      image.code = code := by
  unfold freshCode? at h
  rcases hm : (compile p options).outcome {} with ⟨r, s⟩
  rw [hm] at h
  cases r with
  | error e => cases h
  | ok m =>
    obtain ⟨_, hok, hread⟩ := Option.bind_eq_some_iff.mp h
    cases hok
    obtain ⟨image, himage, hcode⟩ := Option.bind_eq_some_iff.mp hread
    exact ⟨m, s, image, rfl, himage, Option.some.inj hcode⟩

/-- The object that a method is reached as: a declared one as the method of its declaration, and any
other as what a call resolves to. -/
inductive ReachedAs (p : Program) (heap : Heap) : MethodObject → LocatedMethod → Prop
  | declared {m : LocatedMethod} (hm : m ∈ p.methods) (hc : m.isConcrete = true) :
      ReachedAs p heap (.owned (.declared m.id.site) m.id.index) m
  | call {caller object : MethodObject} {m callee : LocatedMethod} {r : MethodRef}
      {target : MethodInstance} (hm : ReachedAs p heap caller m) (hr : m.method.Refers r)
      (ht : (heap.resolve p r).1 = .ok (object, target)) (hc : target.concrete? = some callee) :
      ReachedAs p heap object callee

/-- Where all methods that are reached are known, each is reached as its object. -/
theorem reachedAs_iff {heap : Heap} (hknown : ∀ m, p.Reached m → heap.Knows m.id)
    {object : MethodObject} {m : LocatedMethod} :
    ReachedAs p heap object m ↔ p.Reached m ∧ object = heap.objectOf m.id := by
  have hdeclared : ∀ {m : LocatedMethod}, m ∈ p.methods →
      .owned (.declared m.id.site) m.id.index = heap.objectOf m.id := by
    intro m hm
    obtain ⟨d, _, hm⟩ := List.mem_flatMap.mp hm
    obtain ⟨⟨method, index⟩, _, rfl⟩ := List.mem_map.mp hm
    rfl
  have hresolved : ∀ {object : MethodObject} {m callee : LocatedMethod} {r : MethodRef}
      {target : MethodInstance}, p.Reached m → m.method.Refers r →
      (heap.resolve p r).1 = .ok (object, target) → target.concrete? = some callee →
      p.Reached callee ∧ object = heap.objectOf callee.id := by
    intro object m callee r target hm hr ht hc
    have hvalue := Heap.map_snd_resolve heap p r
    rw [ht] at hvalue
    have hcallee : p.Reached callee :=
      .call hm (Program.calls_iff.mpr ⟨r, target, hr, hvalue.symm, hc⟩)
    have hresolve : heap.resolve p r = (.ok (object, target), (heap.resolve p r).2) :=
      Prod.ext ht rfl
    obtain ⟨_, hobject⟩ := Heap.resolve_ok hresolve
    obtain ⟨rfl, _⟩ := Program.eq_concrete_of_concrete? hc
    have hgrows := Heap.grows_resolve heap p r
    exact ⟨hcallee, hobject.trans ((hknown _ hcallee).objectOf_grows hgrows)⟩
  constructor
  · intro h
    induction h with
    | declared hm hc => exact ⟨.declared hm hc, hdeclared hm⟩
    | call _ hr ht hc ih => exact hresolved ih.1 hr ht hc
  · rintro ⟨h, rfl⟩
    induction h with
    | declared hm hc =>
      rw [← hdeclared hm]
      exact .declared hm hc
    | call hm hcall ih =>
      obtain ⟨r, target, hr, hvalue, hc⟩ := Program.calls_iff.mp hcall
      rw [← Heap.map_snd_resolve heap p r] at hvalue
      rcases ht : (heap.resolve p r).1 with e | ⟨object, found⟩ <;> rw [ht] at hvalue
      · cases hvalue
      · cases hvalue
        obtain ⟨_, rfl⟩ := hresolved hm hr ht hc
        exact .call ih hr ht hc

/-- A session by objects keeps the function of a method under the object of the method. -/
theorem Session.Agrees.get?_iff {t : Session MethodObject} (hst : s.Agrees t)
    (hs : s.Sound p known held)
    (hlisted : ∀ f ∈ s.functionList, s.functions.get? f.method.id = some f)
    {object : MethodObject} {f : Function} :
    t.functions.get? object = some f ↔
      f ∈ s.functionList ∧ object = t.journal.heap.objectOf f.method.id := by
  constructor
  · intro hget
    rw [OnceMap.get?_eq_some] at hget
    obtain ⟨id, hid, rfl⟩ := hst.objects object (by simp [hget])
    rw [hst.cells id hid, ← OnceMap.get?_eq_some] at hget
    obtain ⟨hf, rfl⟩ := hs.functions id f hget
    exact ⟨hf, rfl⟩
  · rintro ⟨hf, rfl⟩
    have hget := OnceMap.get?_eq_some.mp (hlisted f hf)
    rw [OnceMap.get?_eq_some, hst.cells _ (hst.known _ (by simp [hget]))]
    exact hget

/-- The function bodies of a module are those of the concrete methods that are reached from the
declared ones, one for each. They are kept by objects: the calls that lead to a method lead to one
object, and two methods are one object just when their declared method, their owner and their type
arguments are the same. Whatever was asked of the program before, an object that was handed out then
is the one that the method is compiled as. The declared methods that are left out are those still
generic. -/
theorem compile_emits_reached (hp : p.Distinct) (ho : ∀ d ∈ p.types, d.Owned) {options : Options}
    {m : CompiledModule} {jobs : Nat} (hjobs : jobs ≤ 1) {schedule : Nat → Schedule}
    {requests : List Request} {journal : Journal}
    (hjournal : journal.heap = (Holdings.run p requests).heap) {t : Session MethodObject}
    (h : (compileWith jobs schedule p options).outcome { journal } = (.ok m, t)) :
    ∃ (image : Image) (fs : List Function), Image.read? m.bytes = some image ∧
      functionBodies image.code = fs.map Function.code ∧
      (fs.map fun f => f.method.identity).Nodup ∧
      (∀ lm, lm ∈ fs.map Function.method ↔ p.Reached lm) ∧
      (∀ f ∈ fs, f.method.isConcrete = true ∧ ∃ code earlier q, f.Built p code earlier q) ∧
      m.functions = fs.length ∧
      m.skipped = (p.methods.filter fun lm => !lm.isConcrete).map LocatedMethod.fullName ∧
      (∀ object f, t.functions.get? object = some f ↔
        f ∈ fs ∧ ReachedAs p t.journal.heap object f.method) ∧
      (∀ lm, p.Reached lm ↔ ∃ object, ReachedAs p t.journal.heap object lm) ∧
      (∀ object object' lm lm', ReachedAs p t.journal.heap object lm →
        ReachedAs p t.journal.heap object' lm' →
        (object = object' ↔ lm.identity = lm'.identity)) ∧
      ∀ x ∈ (Holdings.run p requests).methods, ∀ f,
        t.functions.get? x.1 = some f ↔ f ∈ fs ∧ x.2 = .concrete f.method := by
  obtain ⟨hresult, hst, hgrows⟩ := compileWith_agrees p options schedule (.inl hjobs) journal
  rw [h] at hresult hst hgrows
  obtain ⟨s, h⟩ : ∃ s, (compile p options).outcome { journal } = (.ok m, s) :=
    ⟨_, Prod.ext hresult.symm rfl⟩
  rw [h] at hst
  obtain ⟨hs, hshows, hdeclared⟩ := compile_sound (Program.resolves_locates p)
    (Program.locates_methods hp) ((Session.sound_empty p p.Locates).withJournal journal) h
  have hrests : Session.Rests p (fun _ => True) { journal } :=
    (Session.rests_empty p fun _ => True).same rfl rfl rfl
  have hends := ends_compileWithin hp depthLimit options (fun _ => trivial)
    (fun _ => admits_all p) hrests
  obtain ⟨htracks, hskipped⟩ := hends.of_ok h
  have hlisted : ∀ f ∈ s.functionList, p.Reached f.method := fun f hf => (htracks.listed f hf).1
  have hentered : ∀ f ∈ s.functionList, s.functions.get? f.method.id = some f :=
    fun f hf => (htracks.listed f hf).2
  have hreached : ∀ lm, p.Reached lm → ∃ f ∈ s.functionList, f.method = lm :=
    fun _ hlm => hs.exists_function hp hdeclared hlm
  have hknown : ∀ lm, p.Reached lm → t.journal.heap.Knows lm.id := by
    intro lm hlm
    obtain ⟨f, hf, rfl⟩ := hreached lm hlm
    exact hst.known _ (by simp [OnceMap.get?_eq_some.mp (hentered f hf)])
  refine ⟨_, s.functionList, hshows.image hs, hs.functionBodies_sections, ?_, ?_, ?_,
    hshows.functions, hskipped, ?_, ?_, ?_, ?_⟩
  · refine List.Nodup.map_on ?_ htracks.distinct.of_map
    intro f hf g hg he
    have hmethod := (hlisted f hf).eq_of_identity_eq hp ho (hlisted g hg) he
    have hf' := hentered f hf
    rw [hmethod, hentered g hg] at hf'
    exact (Option.some.inj hf').symm
  · intro lm
    rw [List.mem_map]
    constructor
    · rintro ⟨f, hf, rfl⟩
      exact hlisted f hf
    · exact hreached lm
  · intro f hf
    obtain ⟨pre, post, q, _, hq⟩ := hs.built hf
    exact ⟨(hlisted f hf).isConcrete, s.code, pre, q, hq⟩
  · intro object f
    rw [hst.get?_iff hs hentered, reachedAs_iff hknown]
    exact ⟨fun hf => ⟨hf.1, hlisted f hf.1, hf.2⟩, fun hf => ⟨hf.1, hf.2.2⟩⟩
  · intro lm
    simp only [reachedAs_iff hknown]
    exact ⟨fun hlm => ⟨_, hlm, rfl⟩, fun hlm => hlm.elim fun _ h => h.1⟩
  · intro object object' lm lm' has has'
    obtain ⟨hlm, rfl⟩ := (reachedAs_iff hknown).mp has
    obtain ⟨hlm', rfl⟩ := (reachedAs_iff hknown).mp has'
    rw [(hknown lm hlm).objectOf_eq_iff (hknown lm' hlm')]
    constructor
    · intro hid
      rw [(hlm.locates hp).eq_of_id_eq (hlm'.locates hp) hid]
    · intro hidentity
      rw [hlm.eq_of_identity_eq hp ho hlm' hidentity]
  · intro x hx f
    have hheld : t.journal.heap.Holds p x :=
      ((Holdings.sound_run p requests).methods x hx).grows (hjournal ▸ hgrows)
    rw [hst.get?_iff hs hentered]
    refine and_congr_right fun hf => ?_
    have hprovided := (hlisted f hf).provides hp
    rw [hheld.object, hheld.known.objectOf_eq_iff (hknown _ (hlisted f hf))]
    exact ⟨hheld.provided.eq_of_id_eq hprovided, congrArg MethodInstance.id⟩

theorem Probe.distinct : Probe.program.Distinct := by
  have hnames : ["Float", "UInt", "Vec", "Probe"].Nodup := by decide
  exact hnames

namespace Mill

def float : Ty := .named "Float" []

def uint : Ty := .named "UInt" []

def shader : Ty := .named "Shader" []

def cell (ty : Ty) : Ty := .named "Cell" [ty]

def parameter : GenericParam := ⟨"T", []⟩

/-- A method of a generic type. -/
def idle : Method where
  owner := cell parameter.ty
  name := "idle"
  attributes := [.static]

/-- A generic method that calls a method of a constructed type. -/
def turn : Method where
  owner := shader
  name := "turn"
  attributes := [.static]
  genericParameters := [parameter]
  body := [.mk .call [.method ⟨cell parameter.ty, 0, "idle", []⟩, .void]]

/-- A method that calls one instance twice. -/
def main : Method where
  owner := shader
  name := "main"
  attributes := [.static]
  body :=
    [.mk .call [.method ⟨shader, 0, "turn", [float]⟩, .void],
      .mk .call [.method ⟨shader, 0, "turn", [uint]⟩, .void],
      .mk .call [.method ⟨shader, 0, "turn", [float]⟩, .void]]

def program : Program where
  name := "mill"
  types :=
    [{ fullName := "Float" }, { fullName := "UInt" },
      { fullName := "Cell", genericParameters := [parameter], methods := [idle] },
      { fullName := "Shader", methods := [turn, main] }]

/-- An instance by reference and by the method itself, and a method of a constructed type. -/
def requests : List Request :=
  [.resolve ⟨shader, 0, "turn", [uint]⟩, .declared "Shader" 0, .instantiate 1 [uint],
    .construct (cell float), .member 0 0]

/-- A fresh session after the requests. -/
def session : Session MethodObject where
  journal := { heap := (Holdings.run program requests).heap }

end Mill

/-- An instance that is called twice is one object, and another instance of its method is not. What
was handed out before is compiled as the object that it was handed out as. -/
theorem compile_emits_reached_mill :
    let held := Holdings.run Mill.program Mill.requests
    ∃ m t, (compileWith 1 Schedule.inOrder Mill.program {}).outcome Mill.session = (.ok m, t) ∧
      m.functions = 5 ∧ m.skipped = ["Cell<T>::idle", "Shader::turn"] ∧
      held.methods.map Prod.fst = [.specialized 0, .owned (.declared ⟨[], "Shader"⟩) 0,
        .specialized 0, .owned (.constructed 0) 0] ∧
      t.functions.cells.map Prod.fst = [.owned (.declared ⟨[], "Shader"⟩) 1, .specialized 1,
        .owned (.constructed 0) 0, .specialized 0, .owned (.constructed 1) 0] ∧
      ∃ (image : Image) (fs : List Function), Image.read? m.bytes = some image ∧
        functionBodies image.code = fs.map Function.code ∧
        (fs.map fun f => f.method.identity).Nodup ∧
        (∀ lm, lm ∈ fs.map Function.method ↔ Mill.program.Reached lm) ∧
        m.functions = fs.length ∧
        (∀ object f, t.functions.get? object = some f ↔
          f ∈ fs ∧ ReachedAs Mill.program t.journal.heap object f.method) ∧
        ∀ x ∈ held.methods, ∀ f,
          t.functions.get? x.1 = some f ↔ f ∈ fs ∧ x.2 = .concrete f.method := by
  intro held
  have hdistinct : Mill.program.Distinct := by
    have hnames : ["Float", "UInt", "Cell", "Shader"].Nodup := by decide
    exact hnames
  have howned : ∀ d ∈ Mill.program.types, d.Owned := by
    simp [Mill.program, TypeDecl.Owned, TypeDecl.selfTy, Mill.idle, Mill.turn, Mill.main,
      Mill.cell, Mill.shader]
  have hheld : held.methods.map Prod.fst = [.specialized 0, .owned (.declared ⟨[], "Shader"⟩) 0,
      .specialized 0, .owned (.constructed 0) 0] := by
    decide +kernel
  have hresult : ((compileWith 1 Schedule.inOrder Mill.program {}).outcome
      Mill.session).1.toOption.map (fun m => (m.functions, m.skipped)) =
        some (5, ["Cell<T>::idle", "Shader::turn"]) := by
    decide +kernel
  have hobjects : ((compileWith 1 Schedule.inOrder Mill.program {}).outcome
      Mill.session).2.functions.cells.map Prod.fst = [.owned (.declared ⟨[], "Shader"⟩) 1,
        .specialized 1, .owned (.constructed 0) 0, .specialized 0, .owned (.constructed 1) 0] := by
    decide +kernel
  rcases h : (compileWith 1 Schedule.inOrder Mill.program {}).outcome Mill.session with ⟨r, t⟩
  rw [h] at hresult hobjects
  cases r with
  | error e => cases hresult
  | ok m =>
    obtain ⟨hfunctions, hskipped⟩ := Prod.mk.inj (Option.some.inj hresult)
    obtain ⟨image, fs, hread, hbodies, hnodup, hmethods, _, hcount, _, htable, _, _, hbefore⟩ :=
      compile_emits_reached hdistinct howned (le_refl 1)
        (rfl : Mill.session.journal.heap = (Holdings.run Mill.program Mill.requests).heap) h
    exact ⟨m, t, rfl, hfunctions, hskipped, hheld, hobjects, image, fs, hread, hbodies, hnodup,
      hmethods, hcount, htable, hbefore⟩

end ShaderIR.Lowering
