import ShaderIR.Validation.Walk

/-! What a walk does from a given state: its value and last state when it finishes, and the
reason and last state when it stops early. -/

namespace ShaderIR.Walk

variable {σ ε α β γ : Type}

theorem bind_pure_id (w : Walk σ ε α) : w.bind pure = w := by
  induction w with
  | done result => cases result <;> rfl
  | step busy next rest ih => exact congrArg (step busy next) (funext ih)

theorem bind_bind (w : Walk σ ε α) (f : α → Walk σ ε β) (g : β → Walk σ ε γ) :
    (w.bind f).bind g = w.bind fun a => (f a).bind g := by
  induction w with
  | done result => cases result <;> rfl
  | step busy next rest ih => exact congrArg (step busy next) (funext ih)

instance : LawfulMonad (Walk σ ε) :=
  LawfulMonad.mk' _ bind_pure_id (fun _ _ => rfl) bind_bind

@[simp] theorem outcome_pure (a : α) (s : σ) :
    (pure a : Walk σ ε α).outcome s = (.ok a, s) := rfl

@[simp] theorem outcome_throw (e : Stop ε) (s : σ) :
    (throw e : Walk σ ε α).outcome s = (.error e, s) := rfl

@[simp] theorem outcome_fail (e : ε) (s : σ) :
    (fail e : Walk σ ε α).outcome s = (.error (.failed e), s) := rfl

@[simp] theorem outcome_get (s : σ) : (get : Walk σ ε σ).outcome s = (.ok s, s) := rfl

@[simp] theorem outcome_set (t s : σ) : (set t : Walk σ ε PUnit).outcome s = (.ok ⟨⟩, t) := rfl

@[simp] theorem outcome_modify (f : σ → σ) (s : σ) :
    (modify f : Walk σ ε PUnit).outcome s = (.ok ⟨⟩, f s) := rfl

@[simp] theorem outcome_modifyGet (f : σ → α × σ) (s : σ) :
    (modifyGet f : Walk σ ε α).outcome s = (.ok (f s).1, (f s).2) := rfl

theorem outcome_bind (w : Walk σ ε α) (f : α → Walk σ ε β) (s : σ) :
    (w >>= f).outcome s =
      match w.outcome s with
      | (.ok a, t) => (f a).outcome t
      | (.error e, t) => (.error e, t) := by
  change (w.bind f).outcome s = _
  induction w generalizing s with
  | done result => cases result <;> rfl
  | step busy next rest ih => exact ih s (next s)

theorem outcome_tryCatch (w : Walk σ ε α) (handle : Stop ε → Walk σ ε α) (s : σ) :
    (tryCatch w handle).outcome s =
      match w.outcome s with
      | (.ok a, t) => (.ok a, t)
      | (.error e, t) => (handle e).outcome t := by
  change (w.tryCatch handle).outcome s = _
  induction w generalizing s with
  | done result => cases result <;> rfl
  | step busy next rest ih => exact ih s (next s)

theorem outcome_bind_error {w : Walk σ ε α} {f : α → Walk σ ε β} {s : σ} {e : Stop ε}
    (h : (w.outcome s).1 = .error e) : ((w >>= f).outcome s).1 = .error e := by
  rw [outcome_bind]
  rcases ho : w.outcome s with ⟨e' | a, t⟩
  · rw [ho] at h
    cases h
    rfl
  · rw [ho] at h
    cases h

/-- Run from `s`, the walk ends with a value and a state that satisfy `post`, or it stops early
in a state that satisfies `stop`. -/
def Ends (w : Walk σ ε α) (s : σ) (post : α → σ → Prop) (stop : Stop ε → σ → Prop) : Prop :=
  match w.outcome s with
  | (.ok a, t) => post a t
  | (.error e, t) => stop e t

theorem Ends.ok {w : Walk σ ε α} {s t : σ} {a : α} {post : α → σ → Prop}
    {stop : Stop ε → σ → Prop} (ho : w.outcome s = (.ok a, t)) (h : post a t) :
    w.Ends s post stop := by
  simpa only [Ends, ho] using h

theorem Ends.error {w : Walk σ ε α} {s t : σ} {e : Stop ε} {post : α → σ → Prop}
    {stop : Stop ε → σ → Prop} (ho : w.outcome s = (.error e, t)) (h : stop e t) :
    w.Ends s post stop := by
  simpa only [Ends, ho] using h

theorem Ends.congr {w w' : Walk σ ε α} {s t : σ} {post : α → σ → Prop}
    {stop : Stop ε → σ → Prop} (ho : w.outcome s = w'.outcome t) (h : w'.Ends t post stop) :
    w.Ends s post stop := by
  simpa only [Ends, ho] using h

theorem Ends.of_ok {w : Walk σ ε α} {s t : σ} {a : α} {post : α → σ → Prop}
    {stop : Stop ε → σ → Prop} (h : w.Ends s post stop) (ho : w.outcome s = (.ok a, t)) :
    post a t := by
  simpa only [Ends, ho] using h

theorem Ends.of_error {w : Walk σ ε α} {s : σ} {e : Stop ε} {post : α → σ → Prop}
    {stop : Stop ε → σ → Prop} (h : w.Ends s post stop) (ho : (w.outcome s).1 = .error e) :
    stop e (w.outcome s).2 := by
  unfold Ends at h
  rcases hw : w.outcome s with ⟨e' | a, t⟩
  · rw [hw] at h ho
    cases ho
    exact h
  · rw [hw] at ho
    cases ho

theorem Ends.last {w : Walk σ ε α} {s : σ} {post : α → σ → Prop} {stop : Stop ε → σ → Prop}
    {common : σ → Prop} (h : w.Ends s post stop) (hp : ∀ a t, post a t → common t)
    (hs : ∀ e t, stop e t → common t) : common (w.outcome s).2 := by
  unfold Ends at h
  rcases ho : w.outcome s with ⟨e | a, t⟩ <;> rw [ho] at h
  · exact hs e t h
  · exact hp a t h

theorem Ends.mono {w : Walk σ ε α} {s : σ} {post post' : α → σ → Prop}
    {stop stop' : Stop ε → σ → Prop} (h : w.Ends s post stop)
    (hp : ∀ a t, post a t → post' a t) (hs : ∀ e t, stop e t → stop' e t) :
    w.Ends s post' stop' := by
  unfold Ends at h ⊢
  rcases ho : w.outcome s with ⟨e | a, t⟩ <;> rw [ho] at h
  · exact hs e t h
  · exact hp a t h

theorem Ends.bind {w : Walk σ ε α} {f : α → Walk σ ε β} {s : σ} {post : β → σ → Prop}
    {stop : Stop ε → σ → Prop} (h : w.Ends s (fun a t => (f a).Ends t post stop) stop) :
    (w >>= f).Ends s post stop := by
  unfold Ends at h ⊢
  rw [outcome_bind]
  rcases ho : w.outcome s with ⟨e | a, t⟩ <;> rw [ho] at h <;> exact h

theorem Ends.andThen {w : Walk σ ε α} {f : α → Walk σ ε β} {s : σ} {middle : α → σ → Prop}
    {post : β → σ → Prop} {stop : Stop ε → σ → Prop} (h : w.Ends s middle stop)
    (hf : ∀ a t, middle a t → (f a).Ends t post stop) : (w >>= f).Ends s post stop :=
  Ends.bind (h.mono hf fun _ _ he => he)

/-- Every step of the walk keeps `inv`, whatever happens to the state between the steps, and a
value that it ends with satisfies `post`. -/
def Along (inv : σ → Prop) (post : α → Prop) : Walk σ ε α → Prop
  | .done (.ok a) => post a
  | .done (.error _) => True
  | .step _ next rest => ∀ s, inv s → inv (next s) ∧ (rest s).Along inv post

section Along

variable {inv : σ → Prop} {post : α → Prop}

theorem along_pure {a : α} (h : post a) : (pure a : Walk σ ε α).Along inv post := h

theorem along_throw (e : Stop ε) : (throw e : Walk σ ε α).Along inv post := trivial

theorem along_modifyGet {f : σ → α × σ} (h : ∀ s, inv s → inv (f s).2 ∧ post (f s).1) :
    (modifyGet f : Walk σ ε α).Along inv post := h

theorem along_update {f : σ → α × σ} (h : ∀ s, inv s → inv (f s).2) :
    (modifyGet f : Walk σ ε α).Along inv fun _ => True :=
  along_modifyGet fun s hs => ⟨h s hs, trivial⟩

theorem along_get : (get : Walk σ ε σ).Along inv fun _ => True :=
  along_update fun _ hs => hs

theorem along_modify {f : σ → σ} (h : ∀ s, inv s → inv (f s)) :
    (modify f : Walk σ ε PUnit).Along inv fun _ => True :=
  along_update h

theorem Along.bind {w : Walk σ ε α} {f : α → Walk σ ε β} {post' : β → Prop}
    (h : w.Along inv post) (hf : ∀ a, post a → (f a).Along inv post') :
    (w >>= f).Along inv post' := by
  change (w.bind f).Along inv post'
  induction w with
  | done result =>
    cases result with
    | error e => trivial
    | ok a => exact hf a h
  | step busy next rest ih => exact fun s hs => ⟨(h s hs).1, ih s (h s hs).2⟩

theorem Along.tryCatch {w : Walk σ ε α} {handle : Stop ε → Walk σ ε α} (h : w.Along inv post)
    (hhandle : ∀ e, (handle e).Along inv post) : (tryCatch w handle).Along inv post := by
  change (w.tryCatch handle).Along inv post
  induction w with
  | done result =>
    cases result with
    | error e => exact hhandle e
    | ok a => exact h
  | step busy next rest ih => exact fun s hs => ⟨(h s hs).1, ih s (h s hs).2⟩

theorem along_ofExcept (answer : Except ε α) :
    (ofExcept answer : Walk σ ε α).Along inv fun a => answer = .ok a := by
  cases answer with
  | ok a => exact along_pure rfl
  | error e => exact along_throw _

/-- A walk by itself keeps what each of its steps keeps. -/
theorem Along.ends {w : Walk σ ε α} (h : w.Along inv post) {s : σ} (hs : inv s) :
    w.Ends s (fun a t => inv t ∧ post a) fun _ t => inv t := by
  induction w generalizing s with
  | done result =>
    cases result with
    | error e => exact hs
    | ok a => exact ⟨hs, h⟩
  | step busy next rest ih => exact ih s (h s hs).2 (h s hs).1

theorem Along.last {w : Walk σ ε α} (h : w.Along inv post) {s : σ} (hs : inv s) :
    inv (w.outcome s).2 :=
  (h.ends hs).last (fun _ _ ht => ht.1) fun _ _ ht => ht

end Along

end ShaderIR.Walk
