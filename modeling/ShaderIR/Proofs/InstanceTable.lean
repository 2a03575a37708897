import Mathlib.Data.List.Dedup
import ShaderIR.Journal
import ShaderIR.Proofs.DeferredConstraints
import ShaderIR.Proofs.OnceMap

/-! The instances of one generic method as objects. A method keeps the instances that it has made in
a construct-once table by their arguments, and counts those with nothing left to bind. An instance
that is asked for again is the same object, and no two argument lists share one. So objects are told
apart by the arguments alone, as instances are compared and journals are kept everywhere else. -/

namespace ShaderIR

/-- An instance as an object: the number tells it from every other one that the method has made. -/
structure Made where
  number : Nat
  value : MethodInstance
deriving DecidableEq

/-- An instance that still waits for arguments does not count. -/
def MethodInstance.weight : MethodInstance → Nat
  | .concrete _ => 1
  | .deferred .. => 0

/-- The instances that a generic method has made by their arguments, how many they are, and how many
of them have nothing left to bind. -/
structure InstanceTable where
  entries : OnceMap (List Ty) Made := .empty
  made : Nat := 0
  built : Nat := 0

/-- Why a request is refused before the table is asked. -/
def LocatedMethod.refusal? (m : LocatedMethod) (arguments : List Ty) : Option IrError :=
  if m.method.owner.isGeneric then some (.unconstructedOwner m.fullName m.method.owner)
  else if !m.method.isGeneric then some (.notGeneric m.fullName)
  else if arguments.length != m.method.genericParameters.length then
    some (.arityMismatch m.fullName m.method.genericParameters.length arguments.length)
  else none

theorem LocatedMethod.instantiate_of_refusal? {m : LocatedMethod} {arguments : List Ty} {e : IrError}
    (h : m.refusal? arguments = some e) : m.instantiate arguments = .error e := by
  unfold refusal? at h
  unfold LocatedMethod.instantiate Method.instantiate
  split at h
  · rename_i howner
    cases h
    simp [howner, fullName]
  split at h
  · rename_i howner hgeneric
    cases h
    simp_all [fullName]
  split at h
  · rename_i howner hgeneric hlength
    cases h
    simp_all [fullName]
  · cases h

/-- An instance shows the arguments that it was made with. -/
theorem LocatedMethod.instantiate_injective {m : LocatedMethod} {as as' : List Ty}
    {value : MethodInstance} (h : m.instantiate as = .ok value)
    (h' : m.instantiate as' = .ok value) : as = as' := by
  obtain ⟨_, _, _, _, _, hvalue⟩ := instantiate_eq_ok_iff.mp h
  obtain ⟨_, _, _, _, _, hvalue'⟩ := instantiate_eq_ok_iff.mp h'
  rw [hvalue] at hvalue'
  split at hvalue' <;> split at hvalue'
  · cases hvalue'
    rfl
  · cases hvalue'
  · cases hvalue'
  · simp only [MethodInstance.concrete.injEq, LocatedMethod.mk.injEq, MethodId.mk.injEq,
      Option.some.injEq, true_and] at hvalue'
    exact hvalue'.1

/-- It waits just when some argument mentions a parameter. -/
theorem LocatedMethod.deferred_iff {m : LocatedMethod} {as : List Ty} {value : MethodInstance}
    (h : m.instantiate as = .ok value) :
    (∃ waiting, value = .deferred m waiting) ↔ ∃ a ∈ as, a.isGeneric = true := by
  obtain ⟨_, _, _, _, _, rfl⟩ := instantiate_eq_ok_iff.mp h
  rw [Ty.anyGeneric_eq_any, ← List.any_eq_true]
  split <;> simp_all

/-- An instance waits for nothing just when its arguments are closed. -/
theorem LocatedMethod.weight_of_instantiate {m : LocatedMethod} {as : List Ty}
    {value : MethodInstance} (h : m.instantiate as = .ok value) :
    value.weight = if Ty.anyGeneric as then 0 else 1 := by
  obtain ⟨_, _, _, _, _, rfl⟩ := instantiate_eq_ok_iff.mp h
  split <;> rfl

namespace Journal

variable {j : Journal} {m : LocatedMethod} {as : List Ty}

theorem afterInstantiate_of_error {e : IrError} (h : m.instantiate as = .error e) :
    j.afterInstantiate m as = j := by
  rw [afterInstantiate, h]

/-- Arguments that were accepted before are not noted again. -/
theorem afterInstantiate_of_mem {value : MethodInstance} (h : m.instantiate as = .ok value)
    (hnoted : (m.id, as) ∈ j.methods) : j.afterInstantiate m as = j := by
  rw [afterInstantiate, h]
  exact if_pos hnoted

theorem methods_afterInstantiate {value : MethodInstance} (h : m.instantiate as = .ok value)
    (hnew : (m.id, as) ∉ j.methods) :
    (j.afterInstantiate m as).methods = (m.id, as) :: j.methods := by
  rw [afterInstantiate, h]
  dsimp only [noteMethod]
  rw [if_neg hnew]
  split <;> rfl

theorem specializations_afterInstantiate {value : MethodInstance}
    (h : m.instantiate as = .ok value) (hnew : (m.id, as) ∉ j.methods) :
    (j.afterInstantiate m as).specializations m.id = j.specializations m.id + value.weight := by
  rw [specializations, methods_afterInstantiate h hnew, List.countP_cons,
    LocatedMethod.weight_of_instantiate h]
  cases hclosed : Ty.anyGeneric as <;> simp [specializations, hclosed]

end Journal

namespace InstanceTable

/-- One request for an instance. -/
def request (m : LocatedMethod) (t : InstanceTable) (arguments : List Ty) :
    Except IrError Made × InstanceTable :=
  match m.refusal? arguments with
  | some e => (.error e, t)
  | none =>
    match t.entries.claim arguments with
    | .found x => (.ok x, t)
    | .reentrant => (.error .cyclicConstruction, t)
    | .granted claimed =>
      match m.instantiate arguments with
      | .error e =>
        let failed : OnceMap.Outcome IrError Made := .failed e
        (.error e, { t with entries := claimed.settle arguments failed })
      | .ok value =>
        let x : Made := ⟨t.made, value⟩
        let finished : OnceMap.Outcome IrError Made := .ok x
        (.ok x,
          { entries := claimed.settle arguments finished
            made := t.made + 1
            built := t.built + value.weight })

/-- A request that was made, with its answer. -/
structure Reply where
  arguments : List Ty
  answer : Except IrError Made

/-- The requests that a method has answered, the latest first, with the table and the journal that
they lead to. A request gives the arguments, or binds parameters in those that an earlier answer was
deferred with. -/
inductive History (m : LocatedMethod) : List Reply → InstanceTable → Journal → Prop
  | start {j : Journal} : (∀ as, (m.id, as) ∉ j.methods) → History m [] {} j
  | make {replies : List Reply} {t : InstanceTable} {j : Journal} (as : List Ty) :
      History m replies t j →
        History m (⟨as, (t.request m as).1⟩ :: replies) (t.request m as).2 (j.afterInstantiate m as)
  | bind {replies : List Reply} {t : InstanceTable} {j : Journal} {earlier as : List Ty} {n : Nat}
      (s : Substitution) : History m replies t j →
        ⟨earlier, .ok ⟨n, .deferred m as⟩⟩ ∈ replies →
        History m (⟨Ty.substList s as, (t.request m (Ty.substList s as)).1⟩ :: replies)
          (t.request m (Ty.substList s as)).2 (j.afterInstantiate m (Ty.substList s as))

/-- The closed argument lists among those that were accepted. -/
def closedLists (replies : List Reply) : List (List Ty) :=
  replies.filterMap fun r =>
    match r.answer with
    | .ok _ => if Ty.anyGeneric r.arguments then none else some r.arguments
    | .error _ => none

/-- The table and the journal hold what the replies say. -/
structure Records (m : LocatedMethod) (replies : List Reply) (t : InstanceTable) (j : Journal) :
    Prop where
  settled : ∀ as c, t.entries.cell? as = some c → ∃ x, c = .ready x
  answered : ∀ as x, t.entries.get? as = some x ↔ ⟨as, .ok x⟩ ∈ replies
  instantiated : ∀ r ∈ replies, m.instantiate r.arguments = r.answer.map Made.value
  numbered : ∀ as x, t.entries.get? as = some x → x.number < t.made
  distinct : ∀ as as' x x', t.entries.get? as = some x → t.entries.get? as' = some x' →
    x.number = x'.number → as = as'
  built : t.built = (closedLists replies).dedup.length
  noted : ∀ as, (m.id, as) ∈ j.methods ↔ ∃ x, t.entries.get? as = some x
  counted : j.specializations m.id = t.built

variable {m : LocatedMethod} {replies : List Reply} {t : InstanceTable} {j : Journal}

/-- What a request can do where no cell is open: fail and leave the table alone, find the instance,
or make it and number it. -/
theorem request_cases (hsettled : ∀ as c, t.entries.cell? as = some c → ∃ x, c = .ready x)
    (as : List Ty) :
    (∃ x, t.entries.get? as = some x ∧ t.request m as = (.ok x, t)) ∨
    (∃ e, m.instantiate as = .error e ∧ t.request m as = (.error e, t)) ∨
    ∃ value entries, t.entries.get? as = none ∧ m.instantiate as = .ok value ∧
      (∀ k, entries.cell? k = if k = as then some (.ready ⟨t.made, value⟩) else t.entries.cell? k) ∧
      t.request m as = (.ok ⟨t.made, value⟩, ⟨entries, t.made + 1, t.built + value.weight⟩) := by
  unfold request
  cases hrefusal : m.refusal? as with
  | some e => exact .inr (.inl ⟨e, LocatedMethod.instantiate_of_refusal? hrefusal, rfl⟩)
  | none =>
    rcases OnceMap.claim_of_settled hsettled as with ⟨x, hx, hclaim⟩ | ⟨hnone, hcell, hclaim⟩
    · rw [hclaim]
      exact .inl ⟨x, hx, rfl⟩
    · rw [hclaim]
      cases hmade : m.instantiate as with
      | error e =>
        refine .inr (.inl ⟨e, rfl, ?_⟩)
        simp only [OnceMap.settle, OnceMap.erase_set hcell]
      | ok value =>
        refine .inr (.inr ⟨value, _, hnone, rfl, fun k => ?_, rfl⟩)
        by_cases hk : k = as <;> simp [OnceMap.settle, hk]

theorem mem_closedLists {as : List Ty} :
    as ∈ closedLists replies ↔
      Ty.anyGeneric as = false ∧ ∃ x, (⟨as, .ok x⟩ : Reply) ∈ replies := by
  simp only [closedLists, List.mem_filterMap]
  constructor
  · rintro ⟨⟨as', answer⟩, hr, hsome⟩
    cases answer with
    | error e => simp at hsome
    | ok x =>
      simp only [Option.ite_none_left_eq_some, Option.some.injEq] at hsome
      obtain ⟨hclosed, rfl⟩ := hsome
      exact ⟨by simpa using hclosed, x, hr⟩
  · rintro ⟨hclosed, x, hr⟩
    exact ⟨_, hr, by simp [hclosed]⟩

theorem closedLists_error (as : List Ty) (e : IrError) :
    closedLists (⟨as, .error e⟩ :: replies) = closedLists replies := by
  rw [closedLists, List.filterMap_cons_none rfl, closedLists]

theorem closedLists_ok (as : List Ty) (x : Made) :
    closedLists (⟨as, .ok x⟩ :: replies) =
      if Ty.anyGeneric as then closedLists replies else as :: closedLists replies := by
  by_cases hclosed : Ty.anyGeneric as = true
  · rw [closedLists, List.filterMap_cons_none (by simp [hclosed]), if_pos hclosed, closedLists]
  · rw [closedLists, List.filterMap_cons_some (b := as) (by simp [hclosed]), if_neg hclosed,
      closedLists]

namespace Records

variable (h : Records m replies t j) {as : List Ty}

include h

theorem instantiate_eq {x : Made} (hx : t.entries.get? as = some x) :
    m.instantiate as = .ok x.value :=
  h.instantiated _ ((h.answered as x).mp hx)

theorem number_eq_iff {as' : List Ty} {x x' : Made} (hx : t.entries.get? as = some x)
    (hx' : t.entries.get? as' = some x') : x.number = x'.number ↔ as = as' := by
  constructor
  · exact h.distinct as as' x x' hx hx'
  · rintro rfl
    rw [Option.some.inj (hx.symm.trans hx')]

theorem value_eq_iff {as' : List Ty} {x x' : Made} (hx : t.entries.get? as = some x)
    (hx' : t.entries.get? as' = some x') : x.value = x'.value ↔ as = as' := by
  constructor
  · intro hvalue
    have hmade := h.instantiate_eq hx'
    rw [← hvalue] at hmade
    exact LocatedMethod.instantiate_injective (h.instantiate_eq hx) hmade
  · rintro rfl
    rw [Option.some.inj (hx.symm.trans hx')]

/-- A request that fails is only added to the replies. -/
theorem of_error {e : IrError} (he : m.instantiate as = .error e) :
    Records m (⟨as, .error e⟩ :: replies) t (j.afterInstantiate m as) := by
  rw [Journal.afterInstantiate_of_error he]
  refine { h with answered := fun k x => ?_, instantiated := ?_, built := ?_ }
  · simpa using h.answered k x
  · exact List.forall_mem_cons.mpr ⟨he, h.instantiated⟩
  · rw [closedLists_error, h.built]

/-- So is a request for an instance that is there. -/
theorem of_found {x : Made} (hx : t.entries.get? as = some x) :
    Records m (⟨as, .ok x⟩ :: replies) t (j.afterInstantiate m as) := by
  have hmade := h.instantiate_eq hx
  have hmem := (h.answered as x).mp hx
  rw [Journal.afterInstantiate_of_mem hmade ((h.noted as).mpr ⟨x, hx⟩)]
  refine { h with answered := fun k y => ?_, instantiated := ?_, built := ?_ }
  · rw [h.answered, List.mem_cons]
    constructor
    · exact .inr
    · rintro (he | hy)
      · cases he
        exact hmem
      · exact hy
  · exact List.forall_mem_cons.mpr ⟨hmade, h.instantiated⟩
  · rw [closedLists_ok, h.built]
    split
    · rfl
    · rename_i hclosed
      have hlisted := mem_closedLists.mpr ⟨Bool.eq_false_iff.mpr hclosed, x, hmem⟩
      rw [List.dedup_cons_of_mem hlisted]

/-- A new instance takes the next number, and counts if it has nothing left to bind. -/
theorem of_made {value : MethodInstance} {entries : OnceMap (List Ty) Made}
    (hnone : t.entries.get? as = none) (hmade : m.instantiate as = .ok value)
    (hcell : ∀ k, entries.cell? k =
      if k = as then some (.ready ⟨t.made, value⟩) else t.entries.cell? k) :
    Records m (⟨as, .ok ⟨t.made, value⟩⟩ :: replies) ⟨entries, t.made + 1, t.built + value.weight⟩
      (j.afterInstantiate m as) := by
  have hget := OnceMap.get?_of_cell? hcell
  have hnew : (m.id, as) ∉ j.methods := by
    rw [h.noted]
    simp [hnone]
  have hunanswered : ∀ x, (⟨as, .ok x⟩ : Reply) ∉ replies := by
    intro x hx
    simp [(h.answered as x).mpr hx] at hnone
  refine { settled := ?settled, answered := ?answered, instantiated := ?instantiated,
           numbered := ?numbered, distinct := ?distinct, built := ?built, noted := ?noted,
           counted := ?counted }
  case settled =>
    intro k c hc
    rw [hcell] at hc
    split at hc
    · cases hc
      exact ⟨_, rfl⟩
    · exact h.settled k c hc
  case answered =>
    intro k x
    rw [hget, List.mem_cons, ← h.answered]
    by_cases hk : k = as
    · subst hk
      simp [hnone, eq_comm]
    · simp [hk]
  case instantiated => exact List.forall_mem_cons.mpr ⟨hmade, h.instantiated⟩
  case numbered =>
    intro k x hx
    rw [hget] at hx
    split at hx
    · cases hx
      exact Nat.lt_succ_self t.made
    · exact Nat.lt_succ_of_lt (h.numbered k x hx)
  case distinct =>
    intro k k' x x' hx hx' hnumber
    rw [hget] at hx hx'
    split at hx <;> split at hx'
    · rename_i hk hk'
      rw [hk, hk']
    · cases hx
      exact absurd hnumber (h.numbered k' x' hx').ne'
    · cases hx'
      exact absurd hnumber (h.numbered k x hx).ne
    · exact h.distinct k k' x x' hx hx' hnumber
  case built =>
    rw [closedLists_ok, LocatedMethod.weight_of_instantiate hmade]
    split
    · exact h.built
    · have hlisted : as ∉ closedLists replies := by
        rw [mem_closedLists]
        rintro ⟨_, x, hx⟩
        exact hunanswered x hx
      rw [List.dedup_cons_of_notMem hlisted, List.length_cons, h.built]
  case noted =>
    intro k
    rw [Journal.methods_afterInstantiate hmade hnew, List.mem_cons, h.noted, hget]
    by_cases hk : k = as <;> simp [hk]
  case counted => rw [Journal.specializations_afterInstantiate hmade hnew, h.counted]

/-- Every request keeps the record. -/
theorem request (as : List Ty) :
    Records m (⟨as, (t.request m as).1⟩ :: replies) (t.request m as).2
      (j.afterInstantiate m as) := by
  rcases request_cases h.settled as with ⟨x, hx, hrequest⟩ | ⟨e, he, hrequest⟩ |
    ⟨value, entries, hnone, hmade, hcell, hrequest⟩
  · rw [hrequest]
    exact h.of_found hx
  · rw [hrequest]
    exact h.of_error he
  · rw [hrequest]
    exact h.of_made hnone hmade hcell

end Records

theorem records_start (hnew : ∀ as, (m.id, as) ∉ j.methods) : Records m [] {} j where
  settled := by simp
  answered := by simp
  instantiated := by simp
  numbered := by simp
  distinct := by simp
  built := rfl
  noted := by simpa using hnew
  counted := by
    refine List.countP_eq_zero.mpr fun entry hentry hcount => ?_
    simp only [Bool.and_eq_true, decide_eq_true_eq] at hcount
    exact hnew entry.2 (hcount.1 ▸ hentry)

theorem History.records (h : History m replies t j) : Records m replies t j := by
  induction h with
  | start hnew => exact records_start hnew
  | make as _ ih => exact ih.request as
  | bind s _ _ ih => exact ih.request _

/-- Two answers are one object just when they were given for the same arguments, and an answer is
deferred just when some argument still mentions a parameter. A request that fails changes nothing,
and the specializations that are counted are those for different closed argument lists. Comparing
instances by value and keeping a journal of argument lists comes to the same. -/
theorem History.memoized (h : History m replies t j) :
    (∀ as as' x x', ⟨as, .ok x⟩ ∈ replies → ⟨as', .ok x'⟩ ∈ replies →
      (x.number = x'.number ↔ as = as') ∧ (x.number = x'.number ↔ x.value = x'.value)) ∧
    (∀ as x, ⟨as, .ok x⟩ ∈ replies →
      ((∃ waiting, x.value = .deferred m waiting) ↔ ∃ a ∈ as, a.isGeneric = true)) ∧
    (∀ r ∈ replies, m.instantiate r.arguments = r.answer.map Made.value) ∧
    (∀ as e t', t.request m as = (.error e, t') → t' = t ∧ j.afterInstantiate m as = j) ∧
    t.built = (closedLists replies).dedup.length ∧ j.specializations m.id = t.built := by
  have hrecords := h.records
  refine ⟨fun as as' x x' hx hx' => ?_, fun as x hx => ?_, hrecords.instantiated,
    fun as e t' he => ?_, hrecords.built, hrecords.counted⟩
  · rw [← hrecords.answered] at hx hx'
    have hnumber := hrecords.number_eq_iff hx hx'
    exact ⟨hnumber, hnumber.trans (hrecords.value_eq_iff hx hx').symm⟩
  · exact LocatedMethod.deferred_iff (hrecords.instantiated _ hx)
  · rcases request_cases hrecords.settled as with ⟨x, _, hrequest⟩ | ⟨e', he', hrequest⟩ |
      ⟨value, entries, _, _, _, hrequest⟩
    · rw [hrequest] at he
      cases he
    · rw [hrequest] at he
      cases he
      exact ⟨rfl, Journal.afterInstantiate_of_error he'⟩
    · rw [hrequest] at he
      cases he

/-- The method is deferred with a parameter, refuses a type that is no number and a list that is too
short, and is then asked twice for numbers: by binding the parameter, and outright. -/
theorem History.memoized_scale :
    let int : Ty := .named "Int" []
    let text : Ty := .named "Text" []
    let number : Ty := .param "K" [[int, .named "Real" []]]
    ∃ replies t j, History .scale replies t j ∧
      replies.map Reply.arguments = [[int, text], [int, text], [int], [text, text], [number, text]] ∧
      t.made = 2 ∧ t.built = 1 ∧ j.specializations LocatedMethod.scale.id = 1 ∧
      (∀ x x', ⟨[int, text], .ok x⟩ ∈ replies → ⟨[int, text], .ok x'⟩ ∈ replies →
        x.number = x'.number) ∧
      ∀ x x', ⟨[int, text], .ok x⟩ ∈ replies → ⟨[number, text], .ok x'⟩ ∈ replies →
        x.number ≠ x'.number := by
  intro int text number
  have hdeferred := History.make [number, text]
    (History.start (m := .scale) (j := {}) (by simp))
  have hanswer : (request .scale {} [number, text]).1 =
      .ok ⟨0, .deferred .scale [number, text]⟩ := rfl
  rw [hanswer] at hdeferred
  have hrefused := (hdeferred.make [text, text]).make [int]
  have hbound := hrefused.bind (.ofList [("K", int)]) (.tail _ (.tail _ (.head _)))
  have hagain := hbound.make [int, text]
  obtain ⟨hsame, _, _, _, hbuilt, hcounted⟩ := hagain.memoized
  have hone := hbuilt.trans (by decide +kernel : _ = 1)
  refine ⟨_, _, _, hagain, rfl, by decide +kernel, hone, hcounted.trans hone,
    fun x x' hx hx' => ?_, fun x x' hx hx' => ?_⟩
  · exact (hsame _ _ x x' hx hx').1.mpr rfl
  · exact fun hnumber => absurd ((hsame _ _ x x' hx hx').1.mp hnumber) (by decide)

end InstanceTable

end ShaderIR
